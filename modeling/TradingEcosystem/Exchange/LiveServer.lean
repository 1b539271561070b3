import TradingEcosystem.Common.TCPSocket
import TradingEcosystem.Exchange.OrderServer

/-!
# The order server on its sockets

A read of a socket puts what the kernel delivers behind the bytes that are already there and calls
`recvCallback`, which goes over the complete requests and moves the rest to the front with a
`memcpy`.  `OrderServer.recvCallback` is about values; `recvCallbackCopying` is the same function
with the offset of the source's loop and the copy it ends with, and `recvCallbackCopying_eq` joins
the two.

`LiveServer` is the server with the buffers of all its sockets.  Its steps are the reads, the
callback behind a round of reads, and the responses `run` sends.
-/

set_option autoImplicit false

namespace TradingEcosystem
namespace Exchange

open Codec

/-- `memcpy(buffer + dst, buffer + src, len)` inside one buffer. -/
structure Memcpy where
  dst : Nat
  src : Nat
  len : Nat
  deriving DecidableEq

/-- The two ranges have a byte in common, and the copy is undefined. -/
def Memcpy.Overlaps (m : Memcpy) : Prop := m.dst < m.src + m.len ∧ m.src < m.dst + m.len

namespace OrderServer

/-- The loop of `recvCallback`: the server, and the offset behind the last complete request. -/
def recvLoop (socket : Socket) (rxTime : Nanos) (buffer : List UInt8) :
    Nat → Nat → OrderServer → Except Fault (OrderServer × Nat)
  | 0, _, _ => .error .diverges
  | fuel + 1, i, s =>
    if i + omClientRequestCodec.size ≤ buffer.length then do
      let request := omClientRequestCodec.decode ((buffer.drop i).take omClientRequestCodec.size)
      let s ← s.handleRequest socket rxTime request
      recvLoop socket rxTime buffer fuel (i + omClientRequestCodec.size) s
    else .ok (s, i)

/-- `recvCallback` with the copy it makes: the bytes that are left are those from the offset on. -/
def recvCallbackCopying (s : OrderServer) (socket : Socket) (rxTime : Nanos)
    (buffer : List UInt8) : Except Fault (OrderServer × List UInt8 × Option Memcpy) := do
  if omClientRequestCodec.size ≤ buffer.length then
    let (s, i) ← recvLoop socket rxTime buffer (buffer.length + 1) 0 s
    let copy : Memcpy := ⟨0, i, buffer.length - i⟩
    return (s, (buffer.drop copy.src).take copy.len, some copy)
  else return (s, buffer, none)

/-- The complete requests of a buffer one after the other. -/
def handleAll (s : OrderServer) (socket : Socket) (rxTime : Nanos)
    (requests : List OMClientRequest) : Except Fault OrderServer :=
  requests.foldlM (fun s request => s.handleRequest socket rxTime request) s

@[simp] theorem handleAll_nil (s : OrderServer) (socket : Socket) (rxTime : Nanos) :
    s.handleAll socket rxTime [] = .ok s := rfl

theorem handleAll_cons (s : OrderServer) (socket : Socket) (rxTime : Nanos) (r : OMClientRequest)
    (requests : List OMClientRequest) : s.handleAll socket rxTime (r :: requests) =
      s.handleRequest socket rxTime r >>= fun s => s.handleAll socket rxTime requests := rfl

/-- The copy at the end of `recvCallback`, if it gets that far. -/
def compaction (buffer : List UInt8) : Option Memcpy :=
  if omClientRequestCodec.size ≤ buffer.length then
    some ⟨0, buffer.length - (omClientRequestCodec.chunks buffer).2.length,
      (omClientRequestCodec.chunks buffer).2.length⟩
  else none

theorem size_pos : 0 < omClientRequestCodec.size := by decide

theorem recvLoop_eq (socket : Socket) (rxTime : Nanos) (buffer : List UInt8) (fuel : Nat) {i : Nat}
    (hi : i ≤ buffer.length) (hfuel : buffer.length - i < fuel) (s : OrderServer) :
    recvLoop socket rxTime buffer fuel i s =
      (s.handleAll socket rxTime (omClientRequestCodec.chunks (buffer.drop i)).1).map fun s =>
        (s, buffer.length - (omClientRequestCodec.chunks (buffer.drop i)).2.length) := by
  have hpos := size_pos
  induction fuel generalizing i s with
  | zero => omega
  | succ fuel ih =>
    have hdrop : (buffer.drop i).length = buffer.length - i := List.length_drop
    rw [recvLoop]
    split
    · next hle =>
      rw [chunks_of_le _ hpos (by omega), handleAll_cons, List.drop_drop]
      dsimp only
      cases s.handleRequest socket rxTime (omClientRequestCodec.decode
        ((buffer.drop i).take omClientRequestCodec.size)) with
      | error e => rfl
      | ok s => exact ih (by omega) (by omega) s
    · next hlt =>
      have hshort : (buffer.drop i).length < omClientRequestCodec.size := by omega
      rw [chunks_of_lt _ hshort, handleAll_nil, hdrop]
      exact congrArg (fun n => Except.ok (s, n)) (by omega)

/-- **The callback and its copy**: the complete requests are handled, what is left stays. -/
theorem recvCallbackCopying_eq (s : OrderServer) (socket : Socket) (rxTime : Nanos)
    (buffer : List UInt8) : s.recvCallbackCopying socket rxTime buffer =
      (s.handleAll socket rxTime (omClientRequestCodec.chunks buffer).1).map fun s =>
        (s, (omClientRequestCodec.chunks buffer).2, compaction buffer) := by
  rw [recvCallbackCopying, compaction]
  split
  · next hle =>
    rw [recvLoop_eq socket rxTime buffer _ (Nat.zero_le _) (by omega), List.drop_zero]
    have hlen := (omClientRequestCodec.chunks_suffix buffer).length_le
    have hrest := List.suffix_iff_eq_drop.1 (omClientRequestCodec.chunks_suffix buffer)
    cases s.handleAll socket rxTime (omClientRequestCodec.chunks buffer).1 with
    | error e => rfl
    | ok s =>
      have hleft : buffer.length - (buffer.length - (omClientRequestCodec.chunks buffer).2.length) =
          (omClientRequestCodec.chunks buffer).2.length := by omega
      change Except.ok _ = Except.ok _
      dsimp only
      rw [hleft, ← hrest, List.take_length]
  · next hlt =>
    rw [chunks_of_lt _ (Nat.lt_of_not_le hlt)]
    rfl

/-- Without the copy it is `recvCallback`. -/
theorem recvCallback_eq (s : OrderServer) (socket : Socket) (rxTime : Nanos)
    (buffer : List UInt8) : s.recvCallback socket rxTime buffer =
      (s.recvCallbackCopying socket rxTime buffer).map fun x => (x.1, x.2.1) := by
  rw [recvCallbackCopying_eq, recvCallback]
  split
  · rcases omClientRequestCodec.chunks buffer with ⟨requests, rest⟩
    dsimp only
    rw [handleAll]
    cases requests.foldlM (fun (s : OrderServer) request =>
      s.handleRequest socket rxTime request) s <;> rfl
  · next hlt =>
    rw [chunks_of_lt _ (Nat.lt_of_not_le hlt)]
    rfl

/-- **The copy is defined**: less than a request is left, and at least a request is in front. -/
theorem not_overlaps_compaction {buffer : List UInt8} {m : Memcpy}
    (h : compaction buffer = some m) : ¬ m.Overlaps := by
  have hpos := size_pos
  have hlt := omClientRequestCodec.length_chunks_lt size_pos buffer
  rw [compaction] at h
  split at h
  · next hle =>
    have hroom := omClientRequestCodec.size_add_length_chunks_le size_pos hle
    obtain rfl := Option.some.inj h
    rintro ⟨-, hsrc⟩
    dsimp only at hsrc
    omega
  · exact absurd h (by simp)

end OrderServer

/-! ## Requests that are due -/

/-- A complete request, with the socket and the time of the read it was completed by. -/
structure Arrival where
  socket : Socket
  rxTime : Nanos
  request : OMClientRequest

/-- The request as the sequencer keeps it. -/
def Arrival.pending (a : Arrival) : RecvTimeClientRequest := ⟨a.rxTime, a.request.meClientRequest⟩

namespace OrderServer

/-- The client has no other socket, and this is the number it is to use. -/
structure Due (s : OrderServer) (a : Arrival) : Prop where
  inRange : a.request.meClientRequest.clientId.toNat < meMaxNumClients
  own : s.clientIdSocket a.request.meClientRequest.clientId = none ∨
    s.clientIdSocket a.request.meClientRequest.clientId = some a.socket
  number : a.request.seqNum = s.clientIdOutgoingSeqNum a.request.meClientRequest.clientId

/-- The server behind a request that is due. -/
def accept (s : OrderServer) (a : Arrival) : OrderServer :=
  { (s.bindSocket a.request.meClientRequest.clientId a.socket).countOutgoing
      a.request.meClientRequest.clientId with
    fifoSequencer := ⟨s.fifoSequencer.pendingClientRequests ++ [a.pending]⟩ }

theorem clientIdSocket_accept_self {s : OrderServer} {a : Arrival} (h : s.Due a) :
    (s.accept a).clientIdSocket a.request.meClientRequest.clientId = some a.socket := by
  change (s.bindSocket a.request.meClientRequest.clientId a.socket).clientIdSocket
    a.request.meClientRequest.clientId = some a.socket
  rw [bindSocket]
  split
  · exact Function.update_self _ _ _
  · next hn => exact h.own.resolve_left hn

theorem clientIdOutgoingSeqNum_accept (s : OrderServer) (a : Arrival) :
    (s.accept a).clientIdOutgoingSeqNum = Function.update s.clientIdOutgoingSeqNum
      a.request.meClientRequest.clientId
        (s.clientIdOutgoingSeqNum a.request.meClientRequest.clientId + 1) := by
  have hbind : (s.bindSocket a.request.meClientRequest.clientId a.socket).clientIdOutgoingSeqNum =
      s.clientIdOutgoingSeqNum := by
    rw [bindSocket]
    split <;> rfl
  simp only [accept, countOutgoing, hbind]

/-- Every request is due behind the ones before it. -/
def AllDue : OrderServer → List Arrival → Prop
  | _, [] => True
  | s, a :: rest => s.Due a ∧ AllDue (s.accept a) rest

def acceptAll (s : OrderServer) (arrivals : List Arrival) : OrderServer := arrivals.foldl accept s

variable {s : OrderServer}

theorem length_pending_accept (s : OrderServer) (a : Arrival) :
    (s.accept a).fifoSequencer.pendingClientRequests.length =
      s.fifoSequencer.pendingClientRequests.length + 1 := List.length_append

theorem pending_acceptAll (s : OrderServer) (arrivals : List Arrival) :
    (s.acceptAll arrivals).fifoSequencer.pendingClientRequests =
      s.fifoSequencer.pendingClientRequests ++ arrivals.map Arrival.pending := by
  induction arrivals generalizing s with
  | nil => exact (List.append_nil _).symm
  | cons a rest ih =>
    change ((s.accept a).acceptAll rest).fifoSequencer.pendingClientRequests = _
    rw [ih]
    simp [accept]

theorem allDue_append {as bs : List Arrival} :
    s.AllDue (as ++ bs) ↔ s.AllDue as ∧ (s.acceptAll as).AllDue bs := by
  induction as generalizing s with
  | nil => exact ⟨fun h => ⟨trivial, h⟩, And.right⟩
  | cons a rest ih => rw [List.cons_append, AllDue, AllDue, ih, and_assoc]; rfl

theorem acceptAll_append (as bs : List Arrival) :
    s.acceptAll (as ++ bs) = (s.acceptAll as).acceptAll bs := List.foldl_append

/-- The client may be sent to. -/
def HasSocket (s : OrderServer) (c : ClientId) : Prop :=
  c.toNat < meMaxNumClients ∧ s.clientIdSocket c ≠ none

/-- Nobody loses a socket. -/
def Keeps (s s' : OrderServer) : Prop := ∀ c, s.HasSocket c → s'.HasSocket c

theorem keeps_accept (s : OrderServer) (a : Arrival) : s.Keeps (s.accept a) := by
  rintro c ⟨hlt, hne⟩
  refine ⟨hlt, ?_⟩
  change (s.bindSocket a.request.meClientRequest.clientId a.socket).clientIdSocket c ≠ none
  rw [bindSocket]
  split
  · next hnone =>
    have hc : c ≠ a.request.meClientRequest.clientId := fun hc => hne (hc ▸ hnone)
    dsimp only
    rwa [Function.update_of_ne hc]
  · exact hne

theorem keeps_acceptAll (s : OrderServer) (arrivals : List Arrival) :
    s.Keeps (s.acceptAll arrivals) := by
  induction arrivals generalizing s with
  | nil => exact fun _ h => h
  | cons a rest ih => exact fun c h => ih (s.accept a) c (keeps_accept s a c h)

/-- A request that is due is accepted, or is one too many. -/
theorem handleRequest_of_due {a : Arrival} (h : s.Due a) :
    s.handleRequest a.socket a.rxTime a.request =
      if s.fifoSequencer.pendingClientRequests.length ≥ meMaxPendingRequests then
        .error (.fatal "To many pending requests")
      else .ok (s.accept a) := by
  rw [handleRequest_of_bound h.inRange h.own]
  dsimp only
  rw [if_pos h.number, FIFOSequencer.addClientRequest]
  split <;> rfl

/-- A read whose requests are due, with room for them. -/
theorem handleAll_of_allDue (socket : Socket) (rxTime : Nanos) (requests : List OMClientRequest)
    {s : OrderServer} (h : s.AllDue (requests.map (⟨socket, rxTime, ·⟩)))
    (hroom : s.fifoSequencer.pendingClientRequests.length + requests.length ≤
      meMaxPendingRequests) : s.handleAll socket rxTime requests =
        .ok (s.acceptAll (requests.map (⟨socket, rxTime, ·⟩))) := by
  induction requests generalizing s with
  | nil => rfl
  | cons r rest ih =>
    rw [List.length_cons] at hroom
    rw [handleAll_cons, handleRequest_of_due h.1, if_neg (by omega), ok_bind]
    refine ih h.2 ?_
    rw [length_pending_accept]
    omega

/-- One of them is one too many. -/
theorem handleAll_full (socket : Socket) (rxTime : Nanos) (requests : List OMClientRequest)
    {s : OrderServer} (h : s.AllDue (requests.map (⟨socket, rxTime, ·⟩)))
    (hpending : s.fifoSequencer.pendingClientRequests.length ≤ meMaxPendingRequests)
    (hfull : meMaxPendingRequests <
      s.fifoSequencer.pendingClientRequests.length + requests.length) :
    s.handleAll socket rxTime requests = .error (.fatal "To many pending requests") := by
  induction requests generalizing s with
  | nil => exact absurd hfull (Nat.not_lt.2 hpending)
  | cons r rest ih =>
    rw [handleAll_cons, handleRequest_of_due h.1]
    split
    · rfl
    · next hroom =>
      rw [List.length_cons] at hfull
      rw [ok_bind]
      refine ih h.2 ?_ ?_ <;> rw [length_pending_accept] <;> omega

end OrderServer

/-! ## The server and its sockets -/

/-- The order server, its sockets, and what has come of it so far. -/
structure LiveServer where
  orderServer : OrderServer
  tcpSocket : Socket → TCPSocket := fun _ => {}
  /-- What was handed to `addClientRequest`. -/
  handed : List RecvTimeClientRequest := []
  /-- What was written to the queue of the matching engine. -/
  published : List MEClientRequest := []
  /-- The copies `recvCallback` made. -/
  copies : List Memcpy := []

/-- What happens to the order server. -/
inductive ServerEvent where
  /-- `sendAndRecv` of a socket that has these bytes. -/
  | read (socket : Socket) (rxTime : Nanos) (bytes : List UInt8)
  /-- `recv_finished_callback_`. -/
  | finished
  /-- `run` takes a response off its queue. -/
  | respond (clientResponse : MEClientResponse)

/-- The requests that are pending after a step and were not before. -/
def newlyPending (s s' : OrderServer) : List RecvTimeClientRequest :=
  s'.fifoSequencer.pendingClientRequests.drop s.fifoSequencer.pendingClientRequests.length

namespace LiveServer

/-- The reading half of `TCPSocket::sendAndRecv`; without bytes the callback is not called. -/
def read (l : LiveServer) (socket : Socket) (rxTime : Nanos) (bytes : List UInt8) :
    Except Fault LiveServer :=
  if bytes = [] then .ok l
  else do
    let buffer := (l.tcpSocket socket).rcvBuffer ++ bytes
    let (s, rest, copy) ← l.orderServer.recvCallbackCopying socket rxTime buffer
    let sockets := Function.update l.tcpSocket socket { l.tcpSocket socket with rcvBuffer := rest }
    return { l with
      orderServer := s
      tcpSocket := sockets
      handed := l.handed ++ newlyPending l.orderServer s
      copies := l.copies ++ copy.toList }

/-- The bytes go behind what is queued on the sockets. -/
def sendTo (sockets : Socket → TCPSocket) (sends : List SocketSend) : Socket → TCPSocket :=
  sends.foldl (fun sockets x => Function.update sockets x.1 ((sockets x.1).send x.2)) sockets

variable (sort : List RecvTimeClientRequest → List RecvTimeClientRequest)

/-- One event. -/
def step (l : LiveServer) : ServerEvent → Except Fault LiveServer
  | .read socket rxTime bytes => l.read socket rxTime bytes
  | .finished =>
    let (s, written) := l.orderServer.recvFinishedCallback sort
    .ok { l with orderServer := s, published := l.published ++ written }
  | .respond r => do
    let (s, sends) ← l.orderServer.sendResponse r
    return { l with orderServer := s, tcpSocket := sendTo l.tcpSocket sends }

/-- One event after the other. -/
def run (l : LiveServer) (events : List ServerEvent) : Except Fault LiveServer :=
  events.foldlM (fun l e => l.step sort e) l

@[simp] theorem run_nil (l : LiveServer) : l.run sort [] = .ok l := rfl

theorem run_cons (l : LiveServer) (e : ServerEvent) (events : List ServerEvent) :
    l.run sort (e :: events) = l.step sort e >>= fun l => l.run sort events := rfl

theorem sendTo_apply (sockets : Socket → TCPSocket) (sends : List SocketSend) (socket : Socket) :
    sendTo sockets sends socket = { sockets socket with
      sendBuffer := (sockets socket).sendBuffer ++ OrderServer.streamTo socket sends } := by
  induction sends generalizing sockets with
  | nil => simp [sendTo, OrderServer.streamTo]
  | cons x rest ih =>
    change sendTo (Function.update sockets x.1 ((sockets x.1).send x.2)) rest socket = _
    rw [ih]
    by_cases hx : x.1 = socket
    · subst hx
      simp [OrderServer.streamTo, TCPSocket.send]
    · rw [Function.update_of_ne (Ne.symm hx)]
      simp [OrderServer.streamTo, hx]

section Read

variable {l l' : LiveServer} {socket : Socket} {rxTime : Nanos} {bytes : List UInt8}

/-- A read leaves the other sockets as they are. -/
theorem tcpSocket_read_of_ne (h : l.read socket rxTime bytes = .ok l') {x : Socket}
    (hx : x ≠ socket) : l'.tcpSocket x = l.tcpSocket x := by
  rw [read] at h
  split at h
  · obtain rfl := Except.ok.inj h
    rfl
  · obtain ⟨⟨s, rest, copy⟩, -, h⟩ := bind_eq_ok.1 h
    obtain rfl := Except.ok.inj h
    exact Function.update_of_ne hx ..

/-- It leaves all but one receive buffer as it is. -/
theorem tcpSocket_read (h : l.read socket rxTime bytes = .ok l') (x : Socket) :
    ∃ rest, l'.tcpSocket x = { l.tcpSocket x with rcvBuffer := rest } := by
  by_cases hx : x = socket
  · subst hx
    rw [read] at h
    split at h
    · obtain rfl := Except.ok.inj h
      exact ⟨_, rfl⟩
    · obtain ⟨⟨s, rest, copy⟩, -, h⟩ := bind_eq_ok.1 h
      obtain rfl := Except.ok.inj h
      exact ⟨rest, Function.update_self ..⟩
  · exact ⟨_, tcpSocket_read_of_ne h hx⟩

end Read

/-- What a read leaves behind, when the server got to `s` with the bytes of the socket. -/
def afterRead (l : LiveServer) (socket : Socket) (buffer : List UInt8) (s : OrderServer) :
    LiveServer where
  orderServer := s
  tcpSocket := Function.update l.tcpSocket socket
    { l.tcpSocket socket with rcvBuffer := (omClientRequestCodec.chunks buffer).2 }
  handed := l.handed ++ newlyPending l.orderServer s
  published := l.published
  copies := l.copies ++ (OrderServer.compaction buffer).toList

@[simp] theorem rcvBuffer_afterRead_self (l : LiveServer) (socket : Socket) (buffer : List UInt8)
    (s : OrderServer) : ((l.afterRead socket buffer s).tcpSocket socket).rcvBuffer =
      (omClientRequestCodec.chunks buffer).2 := by
  simp [afterRead]

/-- A read handles the requests that are complete. -/
theorem read_eq (l : LiveServer) (socket : Socket) (rxTime : Nanos) {bytes : List UInt8}
    (hb : bytes ≠ []) : l.read socket rxTime bytes =
      let buffer := (l.tcpSocket socket).rcvBuffer ++ bytes
      (l.orderServer.handleAll socket rxTime (omClientRequestCodec.chunks buffer).1).map
        (l.afterRead socket buffer) := by
  rw [read, if_neg hb]
  dsimp only
  rw [OrderServer.recvCallbackCopying_eq]
  cases l.orderServer.handleAll socket rxTime (omClientRequestCodec.chunks
    ((l.tcpSocket socket).rcvBuffer ++ bytes)).1 <;> rfl

theorem sendBuffer_afterRead (l : LiveServer) (socket : Socket) (buffer : List UInt8)
    (s : OrderServer) (x : Socket) :
    ((l.afterRead socket buffer s).tcpSocket x).sendBuffer = (l.tcpSocket x).sendBuffer := by
  rw [afterRead]
  dsimp only
  rw [Function.update_apply]
  split
  · next h => rw [h]
  · rfl

theorem rcvBuffer_afterRead_of_ne (l : LiveServer) {socket x : Socket} (hx : x ≠ socket)
    (buffer : List UInt8) (s : OrderServer) :
    ((l.afterRead socket buffer s).tcpSocket x).rcvBuffer = (l.tcpSocket x).rcvBuffer :=
  congrArg TCPSocket.rcvBuffer (Function.update_of_ne hx _ _)

/-- Where less than a request is waiting, a read without bytes would change nothing, so that the
callback need not be called for it. -/
theorem read_of_short (l : LiveServer) (socket : Socket) (rxTime : Nanos) (bytes : List UInt8)
    (h : (l.tcpSocket socket).rcvBuffer.length < omClientRequestCodec.size) :
    l.read socket rxTime bytes =
      let buffer := (l.tcpSocket socket).rcvBuffer ++ bytes
      (l.orderServer.handleAll socket rxTime (omClientRequestCodec.chunks buffer).1).map
        (l.afterRead socket buffer) := by
  by_cases hb : bytes = []
  · subst hb
    have hcopy : OrderServer.compaction (l.tcpSocket socket).rcvBuffer = none :=
      if_neg (Nat.not_le.2 h)
    rw [read, if_pos rfl]
    dsimp only
    rw [List.append_nil, chunks_of_lt _ h, OrderServer.handleAll_nil]
    simp [Except.map, afterRead, chunks_of_lt _ h, newlyPending, hcopy]
  · exact read_eq l socket rxTime hb

end LiveServer
end Exchange
end TradingEcosystem
