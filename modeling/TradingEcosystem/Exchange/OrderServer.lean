import TradingEcosystem.Common.Wire
import TradingEcosystem.Exchange.FIFOSequencer

/-!
# The order server

`exchange/order_server/order_server.cpp`.  `recvCallback` takes the complete requests off the front
of a socket's buffer, checks the socket and the number of each and hands it to the sequencer; `run`
sends the responses of the matching engine, a number and then the response.

Two slips of the source are visible here.  Requests are checked against the table of outgoing
numbers, so both directions of a session count on one counter and the table of incoming numbers is
never read.  And the response is sent with the size of a pointer to it, which is eight bytes.

`roundTrips_iff` is the second slip seen from the client's end of the wire.
-/

set_option autoImplicit false

namespace TradingEcosystem
namespace Exchange

open Codec

/-- A `TCPSocket*`. -/
abbrev Socket := Nat

/-- `OrderServer`. -/
structure OrderServer where
  clientIdSocket : ClientId → Option Socket
  clientIdOutgoingSeqNum : ClientId → UInt64
  clientIdIncomingSeqNum : ClientId → UInt64
  fifoSequencer : FIFOSequencer

/-- A call of `TCPSocket::send`: the socket and the bytes. -/
abbrev SocketSend := Socket × List UInt8

namespace OrderServer

/-- The constructor. -/
def init : OrderServer where
  clientIdSocket := fun _ => none
  clientIdOutgoingSeqNum := fun _ => 1
  clientIdIncomingSeqNum := fun _ => 1
  fifoSequencer := {}

/-- A client without a socket is bound to the one its message came on. -/
def bindSocket (s : OrderServer) (clientId : ClientId) (socket : Socket) : OrderServer :=
  if s.clientIdSocket clientId = none then
    { s with clientIdSocket := Function.update s.clientIdSocket clientId (some socket) }
  else s

/-- `++next_seq_num`, the counter of a client in the table of outgoing numbers. -/
def countOutgoing (s : OrderServer) (clientId : ClientId) : OrderServer :=
  let next := s.clientIdOutgoingSeqNum clientId + 1
  { s with clientIdOutgoingSeqNum := Function.update s.clientIdOutgoingSeqNum clientId next }

/-- The body of the loop of `recvCallback`. -/
def handleRequest (s : OrderServer) (socket : Socket) (rxTime : Nanos)
    (request : OMClientRequest) : Except Fault OrderServer := do
  let clientId := request.meClientRequest.clientId
  if clientId.toNat < meMaxNumClients then
    let s := s.bindSocket clientId socket
    if s.clientIdSocket clientId ≠ some socket then return s
    -- the table is the one `run` counts responses in
    if request.seqNum ≠ s.clientIdOutgoingSeqNum clientId then return s
    let s := s.countOutgoing clientId
    let f ← s.fifoSequencer.addClientRequest rxTime request.meClientRequest
    return { s with fifoSequencer := f }
  else .error .badIndex

/-- `recvCallback` on the bytes received so far: the bytes that stay in the buffer are returned. -/
def recvCallback (s : OrderServer) (socket : Socket) (rxTime : Nanos) (buffer : List UInt8) :
    Except Fault (OrderServer × List UInt8) := do
  if omClientRequestCodec.size ≤ buffer.length then
    let (requests, rest) := omClientRequestCodec.chunks buffer
    let s ← requests.foldlM (fun s request => s.handleRequest socket rxTime request) s
    return (s, rest)
  else return (s, buffer)

/-- `recvFinishedCallback`. -/
def recvFinishedCallback (sort : List RecvTimeClientRequest → List RecvTimeClientRequest)
    (s : OrderServer) : OrderServer × List MEClientRequest :=
  let (f, written) := s.fifoSequencer.sequenceAndPublish sort
  ({ s with fifoSequencer := f }, written)

/-- `sizeof(client_response)`, the size of the pointer. -/
def sizeofPointer : Nat := 8

/-- The two calls of `send` for one response. -/
def responseSends (socket : Socket) (seqNum : UInt64) (clientResponse : MEClientResponse) :
    List SocketSend :=
  [ (socket, u64.encode seqNum),
    (socket, (meClientResponseCodec.encode clientResponse).take sizeofPointer) ]

/-- The body of the loop of `run`: one response, sent in two parts. -/
def sendResponse (s : OrderServer) (clientResponse : MEClientResponse) :
    Except Fault (OrderServer × List SocketSend) := do
  let clientId := clientResponse.clientId
  if clientId.toNat < meMaxNumClients then
    assert (s.clientIdSocket clientId ≠ none)
      ("There is no TCP Socket for ClientId: " ++ toString clientId)
    let socket ← nonNull (s.clientIdSocket clientId)
    return (s.countOutgoing clientId,
      responseSends socket (s.clientIdOutgoingSeqNum clientId) clientResponse)
  else .error .badIndex

/-- `run` on the responses that are waiting. -/
def drainResponses : OrderServer → List MEClientResponse →
    Except Fault (OrderServer × List SocketSend)
  | s, [] => .ok (s, [])
  | s, r :: rest => do
    let (s, sends) ← s.sendResponse r
    let (s, more) ← drainResponses s rest
    return (s, sends ++ more)

/-! ## One message -/

variable {s : OrderServer}

/-- A request on the client's own socket is accepted when it has the number in the table. -/
theorem handleRequest_of_bound {socket : Socket} {rxTime : Nanos} {r : OMClientRequest}
    (hc : r.meClientRequest.clientId.toNat < meMaxNumClients)
    (hs : s.clientIdSocket r.meClientRequest.clientId = none ∨
      s.clientIdSocket r.meClientRequest.clientId = some socket) :
    s.handleRequest socket rxTime r =
      let s' := s.bindSocket r.meClientRequest.clientId socket
      if r.seqNum = s.clientIdOutgoingSeqNum r.meClientRequest.clientId then
        (s.fifoSequencer.addClientRequest rxTime r.meClientRequest).map fun f =>
          { s'.countOutgoing r.meClientRequest.clientId with fifoSequencer := f }
      else .ok s' := by
  have hbound : (s.bindSocket r.meClientRequest.clientId socket).clientIdSocket
      r.meClientRequest.clientId = some socket := by
    rw [bindSocket]
    split
    · exact Function.update_self _ _ _
    · next h => exact hs.resolve_left h
  have hcount : (s.bindSocket r.meClientRequest.clientId socket).clientIdOutgoingSeqNum =
      s.clientIdOutgoingSeqNum := by
    rw [bindSocket]
    split <;> rfl
  have hseq : (s.bindSocket r.meClientRequest.clientId socket).fifoSequencer = s.fifoSequencer := by
    rw [bindSocket]
    split <;> rfl
  rw [handleRequest]
  simp only [if_pos hc, hbound, ne_eq, not_true_eq_false, if_false, hcount, ite_not]
  split
  · rw [countOutgoing, hseq]
    cases s.fifoSequencer.addClientRequest rxTime r.meClientRequest <;> rfl
  · rfl

/-- A request on a socket that is not the client's is passed over. -/
theorem handleRequest_of_foreign {socket : Socket} {rxTime : Nanos} {r : OMClientRequest}
    (hc : r.meClientRequest.clientId.toNat < meMaxNumClients)
    (hn : s.clientIdSocket r.meClientRequest.clientId ≠ none)
    (hs : s.clientIdSocket r.meClientRequest.clientId ≠ some socket) :
    s.handleRequest socket rxTime r = .ok s := by
  have hbind : s.bindSocket r.meClientRequest.clientId socket = s := by
    rw [bindSocket, if_neg hn]
  rw [handleRequest]
  simp only [if_pos hc, hbind, if_pos hs]
  rfl

/-- What was read is handled message by message; an incomplete message stays in the buffer. -/
theorem recvCallback_encodeAll (socket : Socket) (rxTime : Nanos) (requests : List OMClientRequest)
    {rest : List UInt8} (hrest : rest.length < omClientRequestCodec.size) :
    s.recvCallback socket rxTime (omClientRequestCodec.encodeAll requests ++ rest) =
      (requests.foldlM (fun (s : OrderServer) request =>
        s.handleRequest socket rxTime request) s).map fun s => (s, rest) := by
  rw [recvCallback]
  split
  · rw [chunks_encodeAll _ _ hrest]
    dsimp only
    cases requests.foldlM (fun (s : OrderServer) request =>
      s.handleRequest socket rxTime request) s <;> rfl
  · next h =>
    rw [List.length_append, length_encodeAll] at h
    have hempty : requests = [] := by
      rcases requests with _ | ⟨r, requests⟩
      · rfl
      · rw [List.length_cons, Nat.succ_mul] at h
        omega
    subst hempty
    rfl

theorem sendResponse_of_bound {r : MEClientResponse} {socket : Socket}
    (hc : r.clientId.toNat < meMaxNumClients) (hs : s.clientIdSocket r.clientId = some socket) :
    s.sendResponse r = .ok (s.countOutgoing r.clientId,
      responseSends socket (s.clientIdOutgoingSeqNum r.clientId) r) := by
  rw [sendResponse]
  simp only [if_pos hc, hs, ne_eq, reduceCtorEq, not_false_eq_true, assert_of, ok_bind,
    nonNull_some]
  rfl

/-! ## The stream of responses -/

/-- The bytes sent to a socket. -/
def streamTo (socket : Socket) (sends : List SocketSend) : List UInt8 :=
  (sends.filter fun x => x.1 = socket).flatMap Prod.snd

/-- Responses with their numbers, from `n` on. -/
def numbered (n : UInt64) (rs : List MEClientResponse) : List OMClientResponse :=
  (numberedFrom n rs).map fun x => ⟨x.1, x.2⟩

/-- Draining the responses writes the stream of their packed encodings to the client's socket, and
reading that stream in steps of `sizeof(OMClientResponse)` gives them back. -/
def RoundTrips (s : OrderServer) (clientId : ClientId) (socket : Socket)
    (rs : List MEClientResponse) : Prop :=
  ∃ s' sends, s.drainResponses rs = .ok (s', sends) ∧
    streamTo socket sends =
      omClientResponseCodec.encodeAll (numbered (s.clientIdOutgoingSeqNum clientId) rs) ∧
    omClientResponseCodec.chunks (streamTo socket sends) =
      (numbered (s.clientIdOutgoingSeqNum clientId) rs, [])

theorem length_numbered (n : UInt64) (rs : List MEClientResponse) :
    (numbered n rs).length = rs.length := by
  rw [numbered, List.length_map, length_numberedFrom]

/-- Every response takes sixteen bytes of the stream. -/
theorem drainResponses_eq {clientId : ClientId} {socket : Socket} (rs : List MEClientResponse)
    (hc : clientId.toNat < meMaxNumClients)
    (hrs : ∀ r ∈ rs, r.clientId = clientId) (hs : s.clientIdSocket clientId = some socket) :
    ∃ s' sends, s.drainResponses rs = .ok (s', sends) ∧
      (streamTo socket sends).length = 16 * rs.length := by
  induction rs generalizing s with
  | nil => exact ⟨s, [], rfl, rfl⟩
  | cons r rest ih =>
    obtain rfl := hrs r List.mem_cons_self
    obtain ⟨s', sends, hdrain, hlen⟩ := ih (s := s.countOutgoing r.clientId)
      (fun r' hr' => hrs r' (List.mem_cons_of_mem _ hr')) hs
    refine ⟨s', responseSends socket (s.clientIdOutgoingSeqNum r.clientId) r ++ sends, ?_, ?_⟩
    · rw [drainResponses, sendResponse_of_bound hc hs, ok_bind]
      dsimp only
      rw [hdrain]
      rfl
    · have hnumber := u64.length_encode (s.clientIdOutgoingSeqNum r.clientId)
      have hresponse := meClientResponseCodec.length_encode r
      have h8 : u64.size = 8 := rfl
      have h42 : meClientResponseCodec.size = 42 := rfl
      rw [streamTo] at hlen
      rw [streamTo, List.filter_append, List.flatMap_append, List.length_append, List.length_cons,
        hlen]
      simp [responseSends, sizeofPointer, hnumber, hresponse, h8, h42]
      omega

/-- **Responses survive the wire** exactly when there are none. -/
theorem roundTrips_iff (s : OrderServer) {clientId : ClientId} {socket : Socket}
    {rs : List MEClientResponse} (hc : clientId.toNat < meMaxNumClients)
    (hs : s.clientIdSocket clientId = some socket) (hrs : ∀ r ∈ rs, r.clientId = clientId) :
    s.RoundTrips clientId socket rs ↔ rs = [] := by
  constructor
  · rintro ⟨s', sends, hdrain, hstream, -⟩
    obtain ⟨s'', sends', hdrain', hlen⟩ := drainResponses_eq rs hc hrs hs
    obtain ⟨-, rfl⟩ := Prod.mk.inj (Except.ok.inj (hdrain.symm.trans hdrain'))
    -- the packed encodings would take fifty bytes each
    rw [hstream, length_encodeAll, length_numbered,
      show omClientResponseCodec.size = 50 from rfl] at hlen
    exact List.length_eq_zero_iff.1 (by omega)
  · rintro rfl
    exact ⟨s, [], rfl, rfl, rfl⟩

/-- The answer of the exchange to a first order of client 1. -/
def firstAccepted : MEClientResponse where
  type := .accepted
  clientId := 1
  tickerId := 0
  clientOrderId := 1
  markerOrderId := 1
  side := .buy
  price := 100
  execQty := 0
  leftQty := 5

theorem not_roundTrips_two :
    ¬ (init.bindSocket 1 7).RoundTrips 1 7
      [firstAccepted, { firstAccepted with clientOrderId := 2 }] :=
  fun h => absurd ((roundTrips_iff _ (by decide) rfl (by decide)).1 h) (by decide)

theorem not_roundTrips_one : ¬ (init.bindSocket 1 7).RoundTrips 1 7 [firstAccepted] := by
  rintro ⟨s', sends, hdrain, hstream, -⟩
  have hbound : (init.bindSocket 1 7).clientIdSocket 1 = some 7 := rfl
  obtain ⟨s'', sends', hdrain', hlen⟩ :=
    drainResponses_eq [firstAccepted] (by decide) (by decide) hbound
  obtain ⟨-, rfl⟩ := Prod.mk.inj (Except.ok.inj (hdrain.symm.trans hdrain'))
  rw [hstream, length_encodeAll] at hlen
  exact absurd hlen (by decide)

end OrderServer
end Exchange
end TradingEcosystem
