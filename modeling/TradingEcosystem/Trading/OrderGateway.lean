import TradingEcosystem.Common.Wire

/-!
# The order gateway

`trading_system/order_gw/order_gateway.cpp`, the client's end of a session.  `run` numbers the
requests of the trade engine from 1 on and sends each in two parts; `recvCallback` takes the
complete responses off the receive buffer and hands over those that carry the gateway's client id
and the number that is due.

The third clause of the loop in `recvCallback` is the expression `i + sizeof(OMClientResponse)`,
which does not move `i`: the first complete response is looked at again and again
(`recvLoop_of_complete`).
-/

set_option autoImplicit false

namespace TradingEcosystem
namespace Trading

open Codec

/-- `OrderGateway`. -/
structure OrderGateway where
  clientId : ClientId
  nextOutgoingSeqNum : UInt64 := 1
  nextExpResponseSeqNum : UInt64 := 1

namespace OrderGateway

/-- The body of the loop of `run`: the two calls of `send` for one request. -/
def sendRequest (g : OrderGateway) (request : MEClientRequest) : OrderGateway × List (List UInt8) :=
  ({ g with nextOutgoingSeqNum := g.nextOutgoingSeqNum + 1 },
    [u64.encode g.nextOutgoingSeqNum, meClientRequestCodec.encode request])

/-- `run` on the requests that are waiting: all the calls of `send`. -/
def drainRequests : OrderGateway → List MEClientRequest → OrderGateway × List (List UInt8)
  | g, [] => (g, [])
  | g, request :: rest =>
    let (g, sends) := g.sendRequest request
    let (g, more) := drainRequests g rest
    (g, sends ++ more)

/-- The body of the loop of `recvCallback`, and what it writes for the trade engine. -/
def handleResponse (g : OrderGateway) (response : OMClientResponse) :
    OrderGateway × Option MEClientResponse :=
  if response.meClientResponse.clientId ≠ g.clientId then (g, none)
  else if response.seqNum ≠ g.nextExpResponseSeqNum then (g, none)
  else ({ g with nextExpResponseSeqNum := g.nextExpResponseSeqNum + 1 },
    some response.meClientResponse)

/-- The loop of `recvCallback` over the received bytes, with the responses written so far. -/
def recvLoop (buffer : List UInt8) (i : Nat) :
    Nat → OrderGateway → List MEClientResponse → Except Fault (OrderGateway × List MEClientResponse)
  | 0, _, _ => .error .diverges
  | fuel + 1, g, written =>
    if i + omClientResponseCodec.size ≤ buffer.length then
      let response := omClientResponseCodec.decode
        ((buffer.drop i).take omClientResponseCodec.size)
      let (g, next) := g.handleResponse response
      recvLoop buffer i fuel g (written ++ next.toList)
    else .ok (g, written)

/-- `recvCallback`; the compaction removes the `i` bytes the loop went over, which is none. -/
def recvCallback (fuel : Nat) (g : OrderGateway) (buffer : List UInt8) :
    Except Fault (OrderGateway × List UInt8 × List MEClientResponse) :=
  if omClientResponseCodec.size ≤ buffer.length then do
    let (g, written) ← recvLoop buffer 0 fuel g []
    return (g, buffer, written)
  else .ok (g, buffer, [])

/-- The number and the request are one packed `OMClientRequest`. -/
theorem flatten_sendRequest (g : OrderGateway) (request : MEClientRequest) :
    (g.sendRequest request).2.flatten =
      omClientRequestCodec.encode ⟨g.nextOutgoingSeqNum, request⟩ := by
  rw [sendRequest, List.flatten_cons, List.flatten_singleton]
  rfl

/-- The requests with the gateway's numbers, from `n` on. -/
def numbered (n : UInt64) (requests : List MEClientRequest) : List OMClientRequest :=
  (numberedFrom n requests).map fun x => ⟨x.1, x.2⟩

theorem numbered_cons (n : UInt64) (r : MEClientRequest) (requests : List MEClientRequest) :
    numbered n (r :: requests) = ⟨n, r⟩ :: numbered (n + 1) requests := rfl

theorem length_numbered (n : UInt64) (requests : List MEClientRequest) :
    (numbered n requests).length = requests.length := by
  rw [numbered, List.length_map, length_numberedFrom]

theorem map_meClientRequest_numbered (n : UInt64) (requests : List MEClientRequest) :
    (numbered n requests).map (·.meClientRequest) = requests := by
  induction requests generalizing n with
  | nil => rfl
  | cons r rest ih => rw [numbered_cons, List.map_cons, ih]

theorem numbered_append (n : UInt64) (l₁ l₂ : List MEClientRequest) :
    numbered n (l₁ ++ l₂) = numbered n l₁ ++ numbered (n + .ofNat l₁.length) l₂ := by
  rw [numbered, numberedFrom_append, List.map_append]
  rfl

/-- What the gateway sends is the stream of its numbered requests. -/
theorem flatten_drainRequests (g : OrderGateway) (requests : List MEClientRequest) :
    (g.drainRequests requests).2.flatten =
      omClientRequestCodec.encodeAll (numbered g.nextOutgoingSeqNum requests) := by
  induction requests generalizing g with
  | nil => rfl
  | cons r rest ih =>
    rw [drainRequests, numbered_cons, encodeAll_cons]
    dsimp only
    rw [List.flatten_append, flatten_sendRequest, ih]
    rfl

/-- A complete response in the buffer keeps the loop going for ever. -/
theorem recvLoop_of_complete {buffer : List UInt8} {i : Nat}
    (h : i + omClientResponseCodec.size ≤ buffer.length) (fuel : Nat) (g : OrderGateway)
    (written : List MEClientResponse) : recvLoop buffer i fuel g written = .error .diverges := by
  induction fuel generalizing g written with
  | zero => rfl
  | succ fuel ih =>
    rw [recvLoop, if_pos h]
    exact ih _ _

theorem handleResponse_of_due {g : OrderGateway} {response : OMClientResponse}
    (hc : response.meClientResponse.clientId = g.clientId)
    (hn : response.seqNum = g.nextExpResponseSeqNum) :
    g.handleResponse response = ({ g with nextExpResponseSeqNum := g.nextExpResponseSeqNum + 1 },
      some response.meClientResponse) := by
  rw [handleResponse, if_neg (not_not_intro hc), if_neg (not_not_intro hn)]

/-! ## What the loop is for -/

/-- `recvLoop` with the responses it has looked at. -/
def recvLoopLogged (buffer : List UInt8) (i : Nat) :
    Nat → OrderGateway → List OMClientResponse → List MEClientResponse →
      Except Fault (OrderGateway × List OMClientResponse × List MEClientResponse)
  | 0, _, _, _ => .error .diverges
  | fuel + 1, g, examined, written =>
    if i + omClientResponseCodec.size ≤ buffer.length then
      let response := omClientResponseCodec.decode
        ((buffer.drop i).take omClientResponseCodec.size)
      let (g, next) := g.handleResponse response
      recvLoopLogged buffer i fuel g (examined ++ [response]) (written ++ next.toList)
    else .ok (g, examined, written)

/-- `recvCallback` with the responses it has looked at. -/
def recvCallbackLogged (fuel : Nat) (g : OrderGateway) (buffer : List UInt8) :
    Except Fault (OrderGateway × List UInt8 × List OMClientResponse × List MEClientResponse) :=
  if omClientResponseCodec.size ≤ buffer.length then do
    let (g, examined, written) ← recvLoopLogged buffer 0 fuel g [] []
    return (g, buffer, examined, written)
  else .ok (g, buffer, [], [])

/-- The log changes nothing. -/
theorem recvLoop_eq_map (buffer : List UInt8) (i fuel : Nat) (g : OrderGateway)
    (examined : List OMClientResponse) (written : List MEClientResponse) :
    recvLoop buffer i fuel g written =
      (recvLoopLogged buffer i fuel g examined written).map fun x => (x.1, x.2.2) := by
  induction fuel generalizing g examined written with
  | zero => rfl
  | succ fuel ih =>
    rw [recvLoop, recvLoopLogged]
    split
    · exact ih _ _ _
    · rfl

theorem recvCallback_eq_map (fuel : Nat) (g : OrderGateway) (buffer : List UInt8) :
    g.recvCallback fuel buffer =
      (g.recvCallbackLogged fuel buffer).map fun x => (x.1, x.2.1, x.2.2.2) := by
  rw [recvCallback, recvCallbackLogged]
  split
  · rw [recvLoop_eq_map buffer 0 fuel g []]
    cases recvLoopLogged buffer 0 fuel g [] [] <;> rfl
  · rfl

/-- What is to be written of some responses, for a client whose next number is `n`, and the number
that is next after them. -/
def dueOf (clientId : ClientId) : UInt64 → List OMClientResponse → UInt64 × List MEClientResponse
  | n, [] => (n, [])
  | n, r :: rest =>
    if r.meClientResponse.clientId = clientId ∧ r.seqNum = n then
      ((dueOf clientId (n + 1) rest).1, r.meClientResponse :: (dueOf clientId (n + 1) rest).2)
    else dueOf clientId n rest

/-- **The stream is consumed**: the callback returns, it has looked at the complete responses one
after the other, written those that were due, and left what is not complete. -/
def Consumes (g : OrderGateway) (buffer : List UInt8) : Prop :=
  ∃ fuel g' rest examined written,
    g.recvCallbackLogged fuel buffer = .ok (g', rest, examined, written) ∧
      omClientResponseCodec.chunks buffer = (examined, rest) ∧
      dueOf g.clientId g.nextExpResponseSeqNum examined = (g'.nextExpResponseSeqNum, written)

/-- The callback never returns on a complete response. -/
theorem recvCallback_of_complete {buffer : List UInt8}
    (h : omClientResponseCodec.size ≤ buffer.length) (fuel : Nat) (g : OrderGateway) :
    g.recvCallback fuel buffer = .error .diverges := by
  rw [recvCallback, if_pos h, recvLoop_of_complete (by rwa [Nat.zero_add])]
  rfl

/-- The callback does its work exactly when there is none. -/
theorem consumes_iff (g : OrderGateway) (buffer : List UInt8) :
    g.Consumes buffer ↔ buffer.length < omClientResponseCodec.size := by
  constructor
  · rintro ⟨fuel, g', rest, examined, written, hreturns, -, -⟩
    by_contra hcomplete
    have hdiverges := recvCallback_of_complete (Nat.le_of_not_lt hcomplete) fuel g
    rw [recvCallback_eq_map, hreturns] at hdiverges
    cases hdiverges
  · intro hpartial
    refine ⟨0, g, buffer, [], [], ?_, omClientResponseCodec.chunks_of_lt hpartial, rfl⟩
    rw [recvCallbackLogged, if_neg (Nat.not_le.2 hpartial)]

/-- One response for this client, with the number that is due. -/
theorem not_consumes : ¬ ∀ (g : OrderGateway) (buffer : List UInt8), g.Consumes buffer := by
  intro h
  obtain ⟨fuel, g', rest, examined, written, hreturns, -⟩ := h { clientId := 7 }
    (omClientResponseCodec.encode ⟨1, { clientId := 7, type := .accepted }⟩)
  have hcomplete := omClientResponseCodec.length_encode ⟨1, { clientId := 7, type := .accepted }⟩
  have hdiverges := recvCallback_of_complete (Nat.le_of_eq hcomplete.symm) fuel { clientId := 7 }
  rw [recvCallback_eq_map, hreturns] at hdiverges
  cases hdiverges

end OrderGateway
end Trading
end TradingEcosystem
