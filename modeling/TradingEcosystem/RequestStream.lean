import TradingEcosystem.Exchange.LiveServer
import TradingEcosystem.Trading.OrderGateway

/-!
# The stream of requests

From the queue of a gateway to the sequencer of the exchange: the gateway numbers its requests and
sends them as one stream of bytes, TCP delivers the stream in pieces of any size, and the server
puts the requests together again.

Between two reads the server has handed over all requests that are complete and keeps the beginning
of the next one, which is less than a request (`Reassembled`).  The step lemma is about one read and
the run lemma about any sequence of reads, publications and responses to other clients.
-/

set_option autoImplicit false

namespace TradingEcosystem
namespace RequestStream

open Codec Exchange Trading OrderGateway StableSort

/-- The bytes of the reads. -/
def bytesOf (events : List ServerEvent) : List UInt8 :=
  events.flatMap fun
    | .read _ _ bytes => bytes
    | _ => []

/-- Reads of one socket, publications, and responses to other clients, which have a socket. -/
def OnSocket (s : OrderServer) (clientId : ClientId) (socket : Socket) : ServerEvent → Prop
  | .read x _ _ => x = socket
  | .finished => True
  | .respond r => r.clientId ≠ clientId ∧ s.HasSocket r.clientId

/-- At most `ME_MAX_PENDING_REQUESTS` requests are completed between two publications; `n` are
since the last one, and `left` bytes of the next one are here. -/
def AtMostPending : Nat → Nat → List ServerEvent → Prop
  | _, _, [] => True
  | n, left, .read _ _ bytes :: events =>
    let complete := (left + bytes.length) / omClientRequestCodec.size
    n + complete ≤ meMaxPendingRequests ∧
      AtMostPending (n + complete) ((left + bytes.length) % omClientRequestCodec.size) events
  | _, left, .finished :: events => AtMostPending 0 left events
  | n, left, .respond _ :: events => AtMostPending n left events

/-! ## The client at the server -/

/-- The server waits for this number of the client, on this socket. -/
structure Awaits (s : OrderServer) (clientId : ClientId) (socket : Socket) (n : UInt64) : Prop where
  own : s.clientIdSocket clientId = none ∨ s.clientIdSocket clientId = some socket
  number : s.clientIdOutgoingSeqNum clientId = n

variable {s : OrderServer} {clientId : ClientId} {socket : Socket} {n : UInt64}

theorem Awaits.due (h : Awaits s clientId socket n) (hc : clientId.toNat < meMaxNumClients)
    (rxTime : Nanos) {r : MEClientRequest} (hr : r.clientId = clientId) :
    s.Due ⟨socket, rxTime, ⟨n, r⟩⟩ := by
  subst hr
  exact ⟨hc, h.own, h.number.symm⟩

theorem Awaits.accept (h : Awaits s clientId socket n) (hc : clientId.toNat < meMaxNumClients)
    (rxTime : Nanos) {r : MEClientRequest} (hr : r.clientId = clientId) :
    Awaits (s.accept ⟨socket, rxTime, ⟨n, r⟩⟩) clientId socket (n + 1) := by
  have hdue := h.due hc rxTime hr
  subst hr
  refine ⟨.inr (OrderServer.clientIdSocket_accept_self hdue), ?_⟩
  rw [OrderServer.clientIdOutgoingSeqNum_accept, Function.update_self, h.number]

/-- A response to another client counts for that client. -/
theorem Awaits.respond (h : Awaits s clientId socket n) {c : ClientId} (hc : c ≠ clientId) :
    Awaits (s.countOutgoing c) clientId socket n :=
  ⟨h.own, (Function.update_of_ne hc.symm _ _).trans h.number⟩

/-- The client's requests are due one after the other. -/
theorem Awaits.allDue (hc : clientId.toNat < meMaxNumClients) (rxTime : Nanos)
    (requests : List MEClientRequest) (hrs : ∀ r ∈ requests, r.clientId = clientId)
    {s : OrderServer} {n : UInt64} (h : Awaits s clientId socket n) :
    s.AllDue ((numbered n requests).map (⟨socket, rxTime, ·⟩)) ∧
      Awaits (s.acceptAll ((numbered n requests).map (⟨socket, rxTime, ·⟩))) clientId socket
        (n + .ofNat requests.length) := by
  induction requests generalizing s n with
  | nil =>
    refine ⟨trivial, ?_⟩
    change Awaits s clientId socket (n + 0)
    rwa [UInt64.add_zero]
  | cons r rest ih =>
    have hr := hrs r List.mem_cons_self
    obtain ⟨hdue, hawaits⟩ := ih (fun r' hr' => hrs r' (List.mem_cons_of_mem _ hr'))
      (h.accept hc rxTime hr)
    refine ⟨⟨h.due hc rxTime hr, hdue⟩, ?_⟩
    have hnext : n + .ofNat (rest.length + 1) = n + 1 + .ofNat rest.length := by
      rw [UInt64.ofNat_add, UInt64.add_assoc, UInt64.add_comm 1]
      rfl
    rw [List.length_cons, hnext]
    exact hawaits

/-! ## Reads and publications -/

/-- What the server has made of some more bytes of the stream: the requests that are complete are
handed over, less than a request stays, every copy was defined, and nobody lost a socket. -/
structure Reassembled (l l' : LiveServer) (socket : Socket) (n : UInt64) (bytes : List UInt8)
    (requests : List MEClientRequest) : Prop where
  handed : l'.handed.map (·.request) = l.handed.map (·.request) ++ requests
  stream : (l.tcpSocket socket).rcvBuffer ++ bytes =
    omClientRequestCodec.encodeAll (numbered n requests) ++ (l'.tcpSocket socket).rcvBuffer
  short : (l'.tcpSocket socket).rcvBuffer.length < omClientRequestCodec.size
  copies : ∀ m ∈ l'.copies, m ∈ l.copies ∨ ¬ m.Overlaps
  keeps : l.orderServer.Keeps l'.orderServer

/-- A part of the numbered requests is a part of the requests, numbered. -/
theorem numbered_eq_append {requests : List MEClientRequest} {l₁ l₂ : List OMClientRequest}
    (h : numbered n requests = l₁ ++ l₂) : ∃ done todo, requests = done ++ todo ∧
      l₁ = numbered n done ∧ l₂ = numbered (n + .ofNat done.length) todo := by
  have hlen := congrArg List.length h
  rw [length_numbered, List.length_append] at hlen
  have htake : (requests.take l₁.length).length = l₁.length := List.length_take_of_le (by omega)
  rw [← List.take_append_drop l₁.length requests, numbered_append] at h
  obtain ⟨h₁, h₂⟩ := List.append_inj h (by rw [length_numbered, htake])
  exact ⟨_, _, (List.take_append_drop l₁.length requests).symm, h₁.symm, h₂.symm⟩

/-- **One read**, of any part of the stream. -/
theorem read_ok (hc : clientId.toNat < meMaxNumClients) {l : LiveServer}
    (hawaits : Awaits l.orderServer clientId socket n)
    (hshort : (l.tcpSocket socket).rcvBuffer.length < omClientRequestCodec.size)
    {requests : List MEClientRequest} (hrs : ∀ r ∈ requests, r.clientId = clientId)
    (rxTime : Nanos) {bytes : List UInt8}
    (hpre : (l.tcpSocket socket).rcvBuffer ++ bytes <+:
      omClientRequestCodec.encodeAll (numbered n requests))
    (hroom : l.orderServer.fifoSequencer.pendingClientRequests.length +
      ((l.tcpSocket socket).rcvBuffer.length + bytes.length) / omClientRequestCodec.size ≤
        meMaxPendingRequests) :
    ∃ l' done todo, requests = done ++ todo ∧ l.read socket rxTime bytes = .ok l' ∧
      Reassembled l l' socket n bytes done ∧
      Awaits l'.orderServer clientId socket (n + .ofNat done.length) ∧
      l'.orderServer.fifoSequencer.pendingClientRequests.length =
        l.orderServer.fifoSequencer.pendingClientRequests.length + done.length := by
  by_cases hb : bytes = []
  · subst hb
    refine ⟨l, [], requests, rfl, if_pos rfl, ⟨?_, List.append_nil _, hshort, fun m hm => .inl hm,
      fun _ hc => hc⟩, ?_, rfl⟩
    · exact (List.append_nil _).symm
    · change Awaits l.orderServer clientId socket (n + 0)
      rwa [UInt64.add_zero]
  · obtain ⟨l₁, l₂, rest, hsplit, hbuf, hrest, -⟩ := exists_of_prefix _ (by decide) hpre
    obtain ⟨done, todo, rfl, rfl, rfl⟩ := numbered_eq_append hsplit
    obtain ⟨hdue, hnext⟩ := hawaits.allDue hc rxTime done
      fun r hr => hrs r (List.mem_append_left _ hr)
    -- the bytes are those of the requests and the rest, so the division counts the requests
    have hlen := congrArg List.length hbuf
    rw [List.length_append, List.length_append, length_encodeAll, length_numbered] at hlen
    have h38 : omClientRequestCodec.size = 38 := rfl
    rw [h38] at hroom hlen hrest
    have hhandle := OrderServer.handleAll_of_allDue socket rxTime _ hdue
      (by rw [length_numbered]; omega)
    have hpending := OrderServer.pending_acceptAll l.orderServer
      ((numbered n done).map (⟨socket, rxTime, ·⟩))
    rw [LiveServer.read_eq l socket rxTime hb]
    dsimp only
    rw [hbuf, chunks_encodeAll _ _ hrest, hhandle]
    refine ⟨_, done, todo, rfl, rfl,
      ⟨?_, ?_, ?_, ?_, OrderServer.keeps_acceptAll _ _⟩, hnext, ?_⟩
    · rw [LiveServer.afterRead, newlyPending, hpending, List.drop_left, List.map_append,
        List.map_map, List.map_map]
      exact congrArg _ (map_meClientRequest_numbered n done)
    · rw [LiveServer.rcvBuffer_afterRead_self, chunks_encodeAll _ _ hrest]
      exact hbuf
    · rwa [LiveServer.rcvBuffer_afterRead_self, chunks_encodeAll _ _ hrest]
    · intro m hm
      rcases List.mem_append.1 hm with hm | hm
      · exact .inl hm
      · exact .inr (OrderServer.not_overlaps_compaction (Option.mem_toList.1 hm))
    · rw [LiveServer.afterRead, hpending, List.length_append, List.length_map, List.length_map,
        length_numbered]

variable {l l₁ l₂ : LiveServer} {bytes bytes' : List UInt8}
  {requests requests' : List MEClientRequest}

/-- The bytes of a read count the requests it completes. -/
theorem Reassembled.lengths (h : Reassembled l l₁ socket n bytes requests) :
    ((l.tcpSocket socket).rcvBuffer.length + bytes.length) / omClientRequestCodec.size =
      requests.length ∧
    ((l.tcpSocket socket).rcvBuffer.length + bytes.length) % omClientRequestCodec.size =
      (l₁.tcpSocket socket).rcvBuffer.length := by
  have hlen := congrArg List.length h.stream
  have hshort := h.short
  have h38 : omClientRequestCodec.size = 38 := rfl
  rw [List.length_append, List.length_append, length_encodeAll, length_numbered] at hlen
  rw [h38] at hlen hshort ⊢
  omega

theorem Reassembled.trans (h : Reassembled l l₁ socket n bytes requests)
    (h' : Reassembled l₁ l₂ socket (n + .ofNat requests.length) bytes' requests') :
    Reassembled l l₂ socket n (bytes ++ bytes') (requests ++ requests') where
  handed := by rw [h'.handed, h.handed, List.append_assoc]
  stream := by
    rw [← List.append_assoc, h.stream, List.append_assoc, h'.stream, numbered_append,
      encodeAll_append, List.append_assoc]
  short := h'.short
  copies := fun m hm => (h'.copies m hm).elim (h.copies m) .inr
  keeps := fun c hc => h'.keeps c (h.keeps c hc)

/-- Where the bytes end with the stream, all requests have been handed over. -/
theorem Reassembled.all {todo : List MEClientRequest}
    (h : Reassembled l l₁ socket n bytes requests)
    (hall : (l.tcpSocket socket).rcvBuffer ++ bytes =
      omClientRequestCodec.encodeAll (numbered n (requests ++ todo))) : todo = [] := by
  rw [h.stream, numbered_append, encodeAll_append, List.append_cancel_left_eq] at hall
  have hlen := congrArg List.length hall
  have hshort := h.short
  have h38 : omClientRequestCodec.size = 38 := rfl
  rw [length_encodeAll, length_numbered] at hlen
  rw [h38] at hlen hshort
  exact List.length_eq_zero_iff.1 (by omega)

theorem OnSocket.mono {s s' : OrderServer} {e : ServerEvent} (h : OnSocket s clientId socket e)
    (hkeeps : s.Keeps s') : OnSocket s' clientId socket e := by
  cases e with
  | read x rxTime bytes => exact h
  | finished => trivial
  | respond r => exact ⟨h.1, hkeeps _ h.2⟩

/-- Events that leave the stream alone. -/
theorem Reassembled.congr (h : Reassembled l₁ l₂ socket n bytes requests)
    (hhanded : l₁.handed = l.handed) (hcopies : l₁.copies = l.copies)
    (hbuf : (l₁.tcpSocket socket).rcvBuffer = (l.tcpSocket socket).rcvBuffer)
    (hkeeps : l.orderServer.Keeps l₁.orderServer) :
    Reassembled l l₂ socket n bytes requests where
  handed := hhanded ▸ h.handed
  stream := hbuf ▸ h.stream
  short := h.short
  copies := hcopies ▸ h.copies
  keeps := fun c hc => h.keeps c (hkeeps c hc)

/-- A response to a client that has a socket. -/
theorem respond_ok (sort : List RecvTimeClientRequest → List RecvTimeClientRequest)
    {l : LiveServer} {r : MEClientResponse} (h : l.orderServer.HasSocket r.clientId) :
    ∃ l₁, l.step sort (.respond r) = .ok l₁ ∧
      l₁.orderServer = l.orderServer.countOutgoing r.clientId ∧
      l₁.handed = l.handed ∧ l₁.copies = l.copies ∧
      ∀ x, (l₁.tcpSocket x).rcvBuffer = (l.tcpSocket x).rcvBuffer := by
  obtain ⟨hlt, hbound⟩ := h
  obtain ⟨x, hx⟩ := Option.ne_none_iff_exists'.1 hbound
  refine ⟨{ l with
      orderServer := l.orderServer.countOutgoing r.clientId
      tcpSocket := LiveServer.sendTo l.tcpSocket (OrderServer.responseSends x
        (l.orderServer.clientIdOutgoingSeqNum r.clientId) r) }, ?_, rfl, rfl, rfl, fun y => ?_⟩
  · rw [LiveServer.step, OrderServer.sendResponse_of_bound hlt hx]
    rfl
  · dsimp only
    rw [LiveServer.sendTo_apply]

/-- **Any sequence of events on the socket**: what has arrived is handed over request by request,
up to the one that is not complete. -/
theorem run_ok (sort : List RecvTimeClientRequest → List RecvTimeClientRequest)
    (hc : clientId.toNat < meMaxNumClients) (events : List ServerEvent)
    {l : LiveServer} (hon : ∀ e ∈ events, OnSocket l.orderServer clientId socket e) {n : UInt64}
    {requests : List MEClientRequest} (hrs : ∀ r ∈ requests, r.clientId = clientId)
    (hawaits : Awaits l.orderServer clientId socket n)
    (hshort : (l.tcpSocket socket).rcvBuffer.length < omClientRequestCodec.size)
    (hpre : (l.tcpSocket socket).rcvBuffer ++ bytesOf events <+:
      omClientRequestCodec.encodeAll (numbered n requests))
    (hfits : AtMostPending l.orderServer.fifoSequencer.pendingClientRequests.length
      (l.tcpSocket socket).rcvBuffer.length events) :
    ∃ l' done todo, requests = done ++ todo ∧ l.run sort events = .ok l' ∧
      Reassembled l l' socket n (bytesOf events) done := by
  induction events generalizing l n requests with
  | nil =>
    exact ⟨l, [], requests, rfl, rfl, (List.append_nil _).symm, List.append_nil _, hshort,
      fun m hm => .inl hm, fun _ hc => hc⟩
  | cons e events ih =>
    have hon' : ∀ s', l.orderServer.Keeps s' → ∀ e ∈ events, OnSocket s' clientId socket e :=
      fun s' hkeeps e he => (hon e (List.mem_cons_of_mem _ he)).mono hkeeps
    cases e with
    | read x rxTime bytes =>
      obtain rfl : x = socket := hon _ List.mem_cons_self
      obtain ⟨hroom, hfits⟩ := hfits
      have hstream : (l.tcpSocket x).rcvBuffer ++ (bytes ++ bytesOf events) <+:
          omClientRequestCodec.encodeAll (numbered n requests) := hpre
      rw [← List.append_assoc] at hstream
      obtain ⟨l₁, done, todo, rfl, hread, hone, hawaits₁, hpending⟩ := read_ok hc hawaits hshort hrs
        rxTime ((List.prefix_append _ _).trans hstream) hroom
      rw [hone.stream, numbered_append, encodeAll_append, List.append_assoc,
        List.prefix_append_right_inj] at hstream
      rw [hone.lengths.1, hone.lengths.2, ← hpending] at hfits
      obtain ⟨l', done', todo', rfl, hrun, hmore⟩ := ih (hon' _ hone.keeps)
        (fun r hr => hrs r (List.mem_append_right _ hr)) hawaits₁ hone.short hstream hfits
      refine ⟨l', done ++ done', todo', (List.append_assoc _ _ _).symm, ?_, hone.trans hmore⟩
      rw [LiveServer.run_cons, LiveServer.step, hread, ok_bind, hrun]
    | finished =>
      have hempty := FIFOSequencer.pending_sequenceAndPublish sort l.orderServer.fifoSequencer
      obtain ⟨l', done, todo, rfl, hrun, hmore⟩ := ih (l := { l with
          orderServer := (l.orderServer.recvFinishedCallback sort).1
          published := l.published ++ (l.orderServer.recvFinishedCallback sort).2 })
        (hon' _ fun _ hc => hc) hrs
        ⟨hawaits.own, hawaits.number⟩ hshort hpre (by
          change AtMostPending (l.orderServer.fifoSequencer.sequenceAndPublish
            sort).1.pendingClientRequests.length _ _
          rw [hempty]
          exact hfits)
      exact ⟨l', done, todo, rfl, hrun, hmore.congr rfl rfl rfl fun _ hc => hc⟩
    | respond r =>
      obtain ⟨hother, hsocket⟩ := hon _ List.mem_cons_self
      obtain ⟨l₁, hstep, hserver, hhanded, hcopies, hbuf⟩ := respond_ok sort hsocket
      have hkeeps : l.orderServer.Keeps l₁.orderServer := by
        rw [hserver]
        exact fun _ hc => hc
      have hawaits₁ : Awaits l₁.orderServer clientId socket n := by
        rw [hserver]
        exact hawaits.respond hother
      have hpending : l₁.orderServer.fifoSequencer = l.orderServer.fifoSequencer := by
        rw [hserver]
        rfl
      rw [← hbuf socket] at hshort hpre
      rw [AtMostPending, ← hpending, ← hbuf socket] at hfits
      obtain ⟨l', done, todo, rfl, hrun, hmore⟩ := ih (hon' _ hkeeps) hrs hawaits₁ hshort hpre hfits
      refine ⟨l', done, todo, rfl, ?_, hmore.congr hhanded hcopies (hbuf socket) hkeeps⟩
      rw [LiveServer.run_cons, hstep, ok_bind, hrun]

/-! ## The round trip -/

/-- What a gateway with this client id sends for these requests. -/
def gatewayStream (clientId : ClientId) (requests : List MEClientRequest) : List UInt8 :=
  ((OrderGateway.mk clientId 1 1).drainRequests requests).2.flatten

/-- **Requests survive the wire** in whatever pieces the stream arrives: at any time the requests
handed over are the first ones, all of them when all bytes are here, less than a request is
buffered, and no copy overlapped. -/
theorem requests_roundTrip (sort : List RecvTimeClientRequest → List RecvTimeClientRequest)
    (clientId : ClientId) (hc : clientId.toNat < meMaxNumClients)
    (requests : List MEClientRequest) (hrs : ∀ r ∈ requests, r.clientId = clientId)
    (s : OrderServer) (hunbound : s.clientIdSocket clientId = none)
    (hcounter : s.clientIdOutgoingSeqNum clientId = 1) (socket : Socket)
    (events : List ServerEvent) (hon : ∀ e ∈ events, OnSocket s clientId socket e)
    (hstream : bytesOf events <+: gatewayStream clientId requests)
    (hpending : AtMostPending s.fifoSequencer.pendingClientRequests.length 0 events) :
    ∃ l, ({ orderServer := s } : LiveServer).run sort events = .ok l ∧
      l.handed.map (·.request) <+: requests ∧
      (bytesOf events = gatewayStream clientId requests → l.handed.map (·.request) = requests) ∧
      (l.tcpSocket socket).rcvBuffer.length < omClientRequestCodec.size ∧
      ∀ m ∈ l.copies, ¬ m.Overlaps := by
  rw [gatewayStream, flatten_drainRequests] at hstream ⊢
  obtain ⟨l, done, todo, rfl, hrun, hall⟩ := run_ok sort hc events hon hrs
    (l := { orderServer := s }) ⟨.inl hunbound, hcounter⟩ OrderServer.size_pos hstream hpending
  refine ⟨l, hrun, ?_, fun hend => ?_, hall.short, fun m hm => ?_⟩
  · rw [hall.handed]
    exact List.prefix_append _ _
  · rw [hall.handed, hall.all hend, List.append_nil]
    rfl
  · exact (hall.copies m hm).resolve_left List.not_mem_nil

/-- Two requests that arrive in pieces of fifty and twenty-six bytes. -/
theorem requests_roundTrip_two :
    let requests := [newRequest 1 1, newRequest 1 2]
    let stream := gatewayStream 1 requests
    ∃ l, ({ orderServer := .init } : LiveServer).run (stableSort RecvTimeClientRequest.time)
        [.read 7 3 (stream.take 50), .finished, .read 7 4 (stream.drop 50)] = .ok l ∧
      l.handed.map (·.request) = requests := by
  intro requests stream
  have hbytes : bytesOf [.read 7 3 (stream.take 50), .finished, .read 7 4 (stream.drop 50)] =
      stream := by
    simp [bytesOf]
  have hlen : stream.length = 76 := by decide
  obtain ⟨l, hrun, -, hall, -, -⟩ := requests_roundTrip (stableSort RecvTimeClientRequest.time) 1
    (by decide) requests (by decide) .init rfl rfl 7
    [.read 7 3 (stream.take 50), .finished, .read 7 4 (stream.drop 50)] (by simp [OnSocket])
    (hbytes ▸ List.prefix_refl _) (by
      simp [AtMostPending, hlen, OrderServer.init, meMaxPendingRequests,
        show omClientRequestCodec.size = 38 from rfl])
  exact ⟨l, hrun, hall hbytes⟩

end RequestStream
end TradingEcosystem
