import TradingEcosystem.Common.Wire

/-!
# Multicast sockets

`common/multicast_socket.cpp`, with the bytes that are valid in the two buffers.  What the kernel
does with a datagram is not part of it: `flush` hands the bytes out and `received` takes some in.
-/

set_option autoImplicit false

namespace TradingEcosystem

def multicastBufferSize : Nat := 64 * 1024 * 1024

/-- `MulticastSocket`: the first `next_send_valid_index_` bytes of `outbound_data_` and the first
`next_rcv_valid_index_` bytes of `inbound_data_`. -/
structure MulticastSocket where
  outboundData : List UInt8 := []
  inboundData : List UInt8 := []

namespace MulticastSocket

/-- `send`; the assertion comes after the copy. -/
def send (s : MulticastSocket) (data : List UInt8) : Except Fault MulticastSocket := do
  let s := { s with outboundData := s.outboundData ++ data }
  assert (s.outboundData.length < multicastBufferSize)
    "Mcast socket buffer filled up and sendAndRecv() not called."
  return s

/-- The sending half of `sendAndRecv`: what goes out as one datagram. -/
def flush (s : MulticastSocket) : MulticastSocket × List UInt8 :=
  ({ s with outboundData := [] }, s.outboundData)

/-- The receiving half of `sendAndRecv`, up to the callback. -/
def received (s : MulticastSocket) (datagram : List UInt8) : MulticastSocket :=
  { s with inboundData := s.inboundData ++ datagram }

theorem send_eq_ok {s s' : MulticastSocket} {data : List UInt8} : s.send data = .ok s' ↔
    (s.outboundData ++ data).length < multicastBufferSize ∧
      s' = { s with outboundData := s.outboundData ++ data } := by
  simp only [send, bind_eq_ok, assert_eq_ok, pure_eq_ok, Except.ok.injEq]
  constructor
  · rintro ⟨_, hlen, rfl⟩
    exact ⟨hlen, rfl⟩
  · rintro ⟨hlen, rfl⟩
    exact ⟨(), hlen, rfl⟩

end MulticastSocket
end TradingEcosystem
