import TradingEcosystem.Common.QueueContents
import TradingEcosystem.Exchange.EngineQueues
import TradingEcosystem.Exchange.LiveServer

/-!
# The exchange

`exchange_main.cpp`: the order server, the matching engine and the three queues that join the
threads.  A request comes in on a socket, waits in the sequencer, is written to the request queue
and processed, and its responses go through the response queue back to `OrderServer::run`.

`LiveExchange` has all of it in one state, with every access to an atomic one step.  The steps of
the order server may come in any order here, which takes in the order of its loop.  A client has a
socket from its first request on, and wherever its requests, orders and responses are, it keeps it:
`Registered` is the server's part of that invariant and `Answerable` the whole.
-/

set_option autoImplicit false

namespace TradingEcosystem
namespace Exchange

open Codec

/-! ## Who has a socket -/

/-- The socket that was the first to send a request for the client. -/
def firstSender (heard : List (Socket × ClientId)) (c : ClientId) : Option Socket :=
  (heard.find? fun p => p.2 = c).map Prod.fst

theorem firstSender_append (heard more : List (Socket × ClientId)) (c : ClientId) :
    firstSender (heard ++ more) c = (firstSender heard c).or (firstSender more c) := by
  rw [firstSender, List.find?_append, Option.map_or]
  rfl

namespace OrderServer

variable {s s' : OrderServer}

theorem clientIdSocket_bindSocket (s : OrderServer) (clientId : ClientId) (socket : Socket)
    (c : ClientId) : (s.bindSocket clientId socket).clientIdSocket c =
      (s.clientIdSocket c).or (firstSender [(socket, clientId)] c) := by
  have hsingle : firstSender [(socket, clientId)] c =
      if c = clientId then some socket else none := by
    rw [firstSender, List.find?_singleton]
    by_cases hc : c = clientId
    · simp [hc]
    · simp [hc, Ne.symm hc]
  rw [hsingle, bindSocket]
  by_cases hc : c = clientId
  · subst hc
    by_cases hs : s.clientIdSocket c = none
    · simp [hs]
    · obtain ⟨t, ht⟩ := Option.ne_none_iff_exists'.1 hs
      simp [ht]
  · split <;> simp [hc]

/-- **What the loop of `recvCallback` does** with one request. -/
theorem handleRequest_eq_ok {socket : Socket} {rxTime : Nanos} {r : OMClientRequest}
    (h : s.handleRequest socket rxTime r = .ok s') :
    r.meClientRequest.clientId.toNat < meMaxNumClients ∧
      s'.clientIdSocket = (s.bindSocket r.meClientRequest.clientId socket).clientIdSocket ∧
      (s'.fifoSequencer = s.fifoSequencer ∨ s'.fifoSequencer.pendingClientRequests =
        s.fifoSequencer.pendingClientRequests ++ [⟨rxTime, r.meClientRequest⟩]) := by
  have hc : r.meClientRequest.clientId.toNat < meMaxNumClients := by
    by_contra hc
    rw [handleRequest] at h
    simp only [if_neg hc] at h
    exact absurd h (by simp)
  have hbindf : (s.bindSocket r.meClientRequest.clientId socket).fifoSequencer =
      s.fifoSequencer := by
    rw [bindSocket]
    split <;> rfl
  refine ⟨hc, ?_⟩
  by_cases hs : s.clientIdSocket r.meClientRequest.clientId = none ∨
      s.clientIdSocket r.meClientRequest.clientId = some socket
  · rw [handleRequest_of_bound hc hs] at h
    dsimp only at h
    split at h
    · rw [FIFOSequencer.addClientRequest] at h
      split at h
      · exact absurd h (by simp [Except.map])
      · obtain rfl := Except.ok.inj h
        exact ⟨rfl, .inr rfl⟩
    · obtain rfl := Except.ok.inj h
      exact ⟨rfl, .inl hbindf⟩
  · obtain ⟨hn, hother⟩ := not_or.1 hs
    rw [handleRequest_of_foreign hc hn hother] at h
    obtain rfl := Except.ok.inj h
    exact ⟨by rw [bindSocket, if_neg hn], .inl rfl⟩

/-- A client has the socket that was the first to send a request for it, and what is pending is of
clients that have one. -/
structure Registered (heard : List (Socket × ClientId)) (s : OrderServer) : Prop where
  sockets : ∀ c, s.clientIdSocket c = firstSender heard c
  inRange : ∀ c, s.clientIdSocket c ≠ none → c.toNat < meMaxNumClients
  pending : ∀ r ∈ s.fifoSequencer.pendingClientRequests, s.HasSocket r.request.clientId

theorem registered_init : init.Registered [] where
  sockets := fun _ => rfl
  inRange := fun _ h => absurd rfl h
  pending := fun _ h => absurd h List.not_mem_nil

variable {heard : List (Socket × ClientId)}

theorem Registered.handleRequest (h : s.Registered heard) {socket : Socket} {rxTime : Nanos}
    {r : OMClientRequest} (hs : s.handleRequest socket rxTime r = .ok s') :
    s'.Registered (heard ++ [(socket, r.meClientRequest.clientId)]) ∧ s.Keeps s' := by
  obtain ⟨hc, hsocket, hpending⟩ := handleRequest_eq_ok hs
  have hbound : ∀ c, s'.clientIdSocket c =
      (s.clientIdSocket c).or (firstSender [(socket, r.meClientRequest.clientId)] c) := by
    intro c
    rw [hsocket]
    exact clientIdSocket_bindSocket _ _ _ _
  have hkeeps : s.Keeps s' := by
    rintro c ⟨hlt, hne⟩
    obtain ⟨t, ht⟩ := Option.ne_none_iff_exists'.1 hne
    refine ⟨hlt, ?_⟩
    rw [hbound, ht]
    exact Option.some_ne_none t
  have hself : s'.clientIdSocket r.meClientRequest.clientId ≠ none := by
    rw [hbound]
    cases s.clientIdSocket r.meClientRequest.clientId <;> simp [firstSender]
  refine ⟨⟨fun c => ?_, fun c hne => ?_, ?_⟩, hkeeps⟩
  · rw [hbound, h.sockets, firstSender_append]
  · by_cases hcr : c = r.meClientRequest.clientId
    · exact hcr ▸ hc
    · refine h.inRange c fun hnone => hne ?_
      rw [hbound, hnone]
      simp [firstSender, Ne.symm hcr]
  · rcases hpending with hsame | hadded
    · rw [hsame]
      exact fun q hq => hkeeps _ (h.pending q hq)
    · rw [hadded]
      intro q hq
      rcases List.mem_append.1 hq with hq | hq
      · exact hkeeps _ (h.pending q hq)
      · obtain rfl := List.mem_singleton.1 hq
        exact ⟨hc, hself⟩

theorem Registered.handleAll (socket : Socket) (rxTime : Nanos) (requests : List OMClientRequest)
    {heard : List (Socket × ClientId)} {s : OrderServer} (h : s.Registered heard)
    (hs : s.handleAll socket rxTime requests = .ok s') :
    s'.Registered (heard ++ requests.map fun r => (socket, r.meClientRequest.clientId)) ∧
      s.Keeps s' := by
  induction requests generalizing s heard with
  | nil =>
    obtain rfl := Except.ok.inj hs
    rw [List.map_nil, List.append_nil]
    exact ⟨h, fun _ hc => hc⟩
  | cons r rest ih =>
    rw [handleAll_cons] at hs
    obtain ⟨s₁, hr, hs⟩ := bind_eq_ok.1 hs
    obtain ⟨h₁, hkeeps₁⟩ := h.handleRequest hr
    obtain ⟨h₂, hkeeps₂⟩ := ih h₁ hs
    rw [List.append_assoc] at h₂
    exact ⟨h₂, fun c hc => hkeeps₂ c (hkeeps₁ c hc)⟩

/-- What the sequencer writes is of clients with a socket. -/
theorem Registered.recvFinishedCallback (h : s.Registered heard)
    {sort : List RecvTimeClientRequest → List RecvTimeClientRequest}
    (hsort : ∀ l, ∀ r ∈ sort l, r ∈ l) :
    (s.recvFinishedCallback sort).1.Registered heard ∧
      ∀ r ∈ (s.recvFinishedCallback sort).2, s.HasSocket r.clientId := by
  refine ⟨⟨h.sockets, h.inRange, fun r hr => ?_⟩, fun r hr => ?_⟩
  · change r ∈ (s.fifoSequencer.sequenceAndPublish sort).1.pendingClientRequests at hr
    rw [FIFOSequencer.pending_sequenceAndPublish] at hr
    exact absurd hr List.not_mem_nil
  · change r ∈ (s.fifoSequencer.sequenceAndPublish sort).2 at hr
    rw [FIFOSequencer.sequenceAndPublish] at hr
    split at hr
    · exact absurd hr List.not_mem_nil
    · obtain ⟨q, hq, rfl⟩ := List.mem_map.1 hr
      exact h.pending q (hsort _ q hq)

end OrderServer

/-! ## Whose orders are in the books -/

namespace MatchingEngine

/-- Every book is one that requests can build, and its orders are of clients with the property. -/
def Owned (P : ClientId → Prop) (e : MatchingEngine) : Prop :=
  ∀ t, ∃ ring, MEOrderBook.Slots (e.tickerOrderBook t) ring ∧
    ∀ i, ∀ d ∈ (e.tickerOrderBook t).ordersIn ring i, P d.clientId

variable {P Q : ClientId → Prop} {e e' : MatchingEngine}

theorem owned_init : Owned P init := fun t =>
  ⟨_, MEOrderBook.slots_init t, fun _ _ h => absurd h List.not_mem_nil⟩

theorem Owned.onStack (h : e.Owned P) (stackRoom : Nat) : (e.onStack stackRoom).Owned P := fun t =>
  (h t).imp fun _ ⟨hslots, hown⟩ => ⟨hslots.onStack stackRoom, hown⟩

theorem Owned.mono (h : e.Owned P) (hpq : ∀ c, P c → Q c) : e.Owned Q := fun t =>
  (h t).imp fun _ ⟨hslots, hown⟩ => ⟨hslots, fun i d hd => hpq _ (hown i d hd)⟩

/-- **A request** leaves orders of its own client at most, and all responses go to that client. -/
theorem Owned.processClientRequest (h : e.Owned P) {req : MEClientRequest} {sent : List Sent}
    (hreq : P req.clientId) (hp : e.processClientRequest req = .ok (e', sent)) :
    e'.Owned P ∧ ∀ r ∈ clientResponses sent, r.clientId = req.clientId := by
  obtain ⟨-, b, hb, rfl⟩ := MatchingEngine.processClientRequest_eq_ok.1 hp
  obtain ⟨ring, hslots, hown⟩ := h req.tickerId
  have hbook : (∃ ring', MEOrderBook.Slots b ring' ∧
      ∀ i, ∀ d ∈ b.ordersIn ring' i, P d.clientId) ∧
        ∀ r ∈ clientResponses sent, r.clientId = req.clientId := by
    cases MEOrderBook.processed_of_eq_ok hslots hb with
    | empty hn hq =>
      exact ⟨⟨ring, hslots.generateNewMarketOrderId, hown⟩, by
        simp [clientResponses, MEOrderBook.acceptedResponse]⟩
    | rested hn hq hi hs =>
      refine ⟨⟨_, hs, fun i d hd => ?_⟩, by simp [clientResponses, MEOrderBook.acceptedResponse]⟩
      rcases (hslots.generateNewMarketOrderId.exists_mem_inserted hi _).1 ⟨i, hd⟩ with rfl | hd
      · exact hreq
      · obtain ⟨j, hd⟩ := hd
        exact hown j d hd
    | dropped hn hc => exact ⟨⟨ring, hslots, hown⟩, fun _ hr => absurd hr List.not_mem_nil⟩
    | missed hn hnone =>
      exact ⟨⟨ring, hslots, hown⟩, by
        simp [clientResponses, MEOrderBook.cancelRejectedResponse]⟩
    | removed hn hp hi hr hs =>
      refine ⟨⟨_, hs, fun j d hd => ?_⟩, by simp [clientResponses, MEOrderBook.canceledResponse]⟩
      obtain ⟨q, hq, hd⟩ := MEOrderBook.mem_ordersIn.1 hd
      rw [hr.data] at hd
      exact hown j d (MEOrderBook.mem_ordersIn.2 ⟨q, ((hslots.mem_removed hi j q).1 hq).1, hd⟩)
  refine ⟨fun t => ?_, hbook.2⟩
  by_cases ht : t = req.tickerId
  · subst ht
    simpa using hbook.1
  · simpa [Function.update_of_ne ht] using h t

end MatchingEngine

/-! ## The exchange in one state -/

/-- The threads of the exchange and the queues between them. -/
structure LiveExchange where
  server : LiveServer := { orderServer := .init }
  /-- What `sequenceAndPublish` still has to write. -/
  publishing : List MEClientRequest := []
  requests : QueueRun MEClientRequest := .start meMaxClientUpdates {}
  threads : EngineThreads := .start meMaxClientUpdates meMaxMarketUpdates
  /-- The complete requests that have come in: the socket and the client of each. -/
  heard : List (Socket × ClientId) := []

/-- What happens next. -/
inductive Move where
  /-- The order server reads a socket that has these bytes. -/
  | receive (socket : Socket) (rxTime : Nanos) (bytes : List UInt8)
  /-- It is through with all sockets, and sequences. -/
  | receiveFinished
  /-- An access of `sequenceAndPublish` to the request queue. -/
  | sequence
  /-- An access of `MatchingEngine::run`. -/
  | engine
  /-- An access of `OrderServer::run` to the response queue. -/
  | send
  /-- An access of `MarketDataPublisher::run`. -/
  | marketDataPublisher

/-- The requests that a read completes. -/
def LiveServer.received (l : LiveServer) (socket : Socket) (bytes : List UInt8) :
    List OMClientRequest :=
  if bytes = [] then []
  else (omClientRequestCodec.chunks ((l.tcpSocket socket).rcvBuffer ++ bytes)).1

namespace LiveExchange

/-- An access of `sequenceAndPublish`. -/
def sequenceStep (x : LiveExchange) : LiveExchange :=
  match x.publishing with
  | [] => x
  | r :: rest =>
    { x with
      requests := x.requests.writerStep r
      publishing := if x.requests.writer.isLast then rest else x.publishing }

/-- An access of the engine: it takes a request, sends all there is to send for it, and advances. -/
def engineStep (x : LiveExchange) : Except Fault LiveExchange :=
  if x.threads.sending = [] then
    match x.requests.reader with
    | .use i => do
      let threads ← x.threads.engineStep (x.requests.queue.store i)
      let requests ← x.requests.readerStep .pointer
      return { x with threads := threads, requests := requests }
    | _ => do
      let requests ← x.requests.readerStep .pointer
      return { x with requests := requests }
  else do
    let threads ← x.threads.engineStep (x.requests.queue.store x.requests.queue.nextReadIndex)
    return { x with threads := threads }

variable (sort : List RecvTimeClientRequest → List RecvTimeClientRequest)

/-- An access of `OrderServer::run` to the responses, with the body of its loop. -/
def sendStep (x : LiveExchange) : Except Fault LiveExchange :=
  match x.threads.responses.reader with
  | .use i => do
    let server ← x.server.step sort (.respond (x.threads.responses.queue.store i))
    let threads ← x.threads.step .orderServer
    return { x with server := server, threads := threads }
  | _ => do
    let threads ← x.threads.step .orderServer
    return { x with threads := threads }

/-- One move. -/
def step (x : LiveExchange) : Move → Except Fault LiveExchange
  | .receive socket rxTime bytes => do
    let server ← x.server.step sort (.read socket rxTime bytes)
    return { x with
      server := server
      heard := x.heard ++ (x.server.received socket bytes).map fun r =>
        (socket, r.meClientRequest.clientId) }
  | .receiveFinished => do
    let server ← x.server.step sort .finished
    return { x with
      server := server
      publishing := x.publishing ++ (x.server.orderServer.recvFinishedCallback sort).2 }
  | .sequence => .ok x.sequenceStep
  | .engine => x.engineStep
  | .send => x.sendStep sort
  | .marketDataPublisher => do
    let threads ← x.threads.step .marketDataPublisher
    return { x with threads := threads }

/-- Move after move. -/
def run (x : LiveExchange) (moves : List Move) : Except Fault LiveExchange :=
  moves.foldlM (step sort) x

/-- The client may be sent to. -/
abbrev HasSocket (x : LiveExchange) (c : ClientId) : Prop := x.server.orderServer.HasSocket c

/-- **The invariant.**  Whoever has a request on its way, an order in a book or a response on its
way has a socket. -/
structure Answerable (x : LiveExchange) : Prop where
  server : x.server.orderServer.Registered x.heard
  publishing : ∀ r ∈ x.publishing, x.HasSocket r.clientId
  requests : x.requests.Contains fun r => x.HasSocket r.clientId
  books : x.threads.engine.Owned x.HasSocket
  sent : ∀ r ∈ clientResponses x.threads.sent, x.HasSocket r.clientId
  sending : ∀ r ∈ clientResponses x.threads.sending, r ∈ clientResponses x.threads.sent
  responses : x.threads.responses.Contains (· ∈ clientResponses x.threads.sent)

variable {sort} {x x' : LiveExchange}

theorem answerable_start : ({} : LiveExchange).Answerable where
  server := OrderServer.registered_init
  publishing := fun _ h => absurd h List.not_mem_nil
  requests := QueueRun.contains_start (by decide) _
  books := MatchingEngine.owned_init
  sent := fun _ h => absurd h List.not_mem_nil
  sending := fun _ h => absurd h List.not_mem_nil
  responses := QueueRun.contains_start (by decide) _

/-- The server goes on and nobody loses a socket. -/
theorem Answerable.withServer (h : x.Answerable) {server : LiveServer}
    {heard : List (Socket × ClientId)} (hs : server.orderServer.Registered heard)
    (hkeeps : x.server.orderServer.Keeps server.orderServer) :
    ({ x with server := server, heard := heard } : LiveExchange).Answerable where
  server := hs
  publishing := fun r hr => hkeeps _ (h.publishing r hr)
  requests := h.requests.mono fun _ hr => hkeeps _ hr
  books := h.books.mono hkeeps
  sent := fun r hr => hkeeps _ (h.sent r hr)
  sending := h.sending
  responses := h.responses

theorem Answerable.receive (h : x.Answerable) {socket : Socket} {rxTime : Nanos}
    {bytes : List UInt8} (hn : x.step sort (.receive socket rxTime bytes) = .ok x') :
    x'.Answerable := by
  obtain ⟨server, hread, hn⟩ := bind_eq_ok.1 hn
  obtain rfl := Except.ok.inj hn
  change x.server.read socket rxTime bytes = .ok server at hread
  rw [LiveServer.received]
  by_cases hb : bytes = []
  · rw [LiveServer.read, if_pos hb] at hread
    obtain rfl := Except.ok.inj hread
    rw [if_pos hb, List.map_nil, List.append_nil]
    exact h
  · rw [LiveServer.read_eq _ _ _ hb] at hread
    rw [if_neg hb]
    dsimp only at hread
    cases hall : x.server.orderServer.handleAll socket rxTime (omClientRequestCodec.chunks
        ((x.server.tcpSocket socket).rcvBuffer ++ bytes)).1 with
    | error e =>
      rw [hall] at hread
      exact absurd hread (by simp [Except.map])
    | ok s =>
      rw [hall] at hread
      obtain rfl := Except.ok.inj hread
      obtain ⟨hs, hkeeps⟩ := h.server.handleAll socket rxTime _ hall
      exact h.withServer hs hkeeps

theorem Answerable.receiveFinished (h : x.Answerable) (hsort : ∀ l, ∀ r ∈ sort l, r ∈ l)
    (hn : x.step sort .receiveFinished = .ok x') : x'.Answerable := by
  obtain ⟨server, hfinished, hn⟩ := bind_eq_ok.1 hn
  obtain rfl := Except.ok.inj hn
  have hserver : server.orderServer = (x.server.orderServer.recvFinishedCallback sort).1 :=
    (Except.ok.inj hfinished) ▸ rfl
  obtain ⟨hs, hwritten⟩ := h.server.recvFinishedCallback hsort
  have hkeeps : x.server.orderServer.Keeps server.orderServer := fun c hc => by
    rw [hserver]
    exact hc
  refine { h.withServer (hserver ▸ hs) hkeeps with publishing := fun r hr => hkeeps _ ?_ }
  exact (List.mem_append.1 hr).elim (h.publishing r) (hwritten r)

theorem Answerable.sequence (h : x.Answerable) : x.sequenceStep.Answerable := by
  have hpublishing := h.publishing
  rw [sequenceStep]
  cases hp : x.publishing with
  | nil => exact h
  | cons r rest =>
    rw [hp] at hpublishing
    refine { h with publishing := ?_, requests := h.requests.writerStep ?_ }
    · intro q hq
      refine hpublishing q ?_
      dsimp only at hq
      split at hq
      · exact List.mem_cons_of_mem _ hq
      · exact hq
    · exact hpublishing r List.mem_cons_self

/-- The engine takes a request. -/
theorem Answerable.process (h : x.Answerable) (hs : x.threads.sending = []) {req : MEClientRequest}
    (hreq : x.HasSocket req.clientId) {threads : EngineThreads}
    (hn : x.threads.engineStep req = .ok threads) :
    ({ x with threads := threads } : LiveExchange).Answerable := by
  rw [EngineThreads.engineStep, hs] at hn
  obtain ⟨⟨engine, sent⟩, hp, hn⟩ := bind_eq_ok.1 hn
  obtain rfl := Except.ok.inj hn
  obtain ⟨hbooks, hclient⟩ := h.books.processClientRequest hreq hp
  refine { h with books := hbooks, sent := ?_, sending := ?_, responses := ?_ }
  · intro r hr
    dsimp only at hr
    rw [clientResponses_append] at hr
    rcases List.mem_append.1 hr with hr | hr
    · exact h.sent r hr
    · exact (hclient r hr).symm ▸ hreq
  · intro r hr
    rw [clientResponses_append]
    exact List.mem_append_right _ hr
  · refine h.responses.mono fun r hr => ?_
    rw [clientResponses_append]
    exact List.mem_append_left _ hr

/-- The engine sends. -/
theorem Answerable.sendStep (h : x.Answerable) {message : Sent} {rest : List Sent}
    (hs : x.threads.sending = message :: rest) {req : MEClientRequest} {threads : EngineThreads}
    (hn : x.threads.engineStep req = .ok threads) :
    ({ x with threads := threads } : LiveExchange).Answerable := by
  have hsending := h.sending
  rw [EngineThreads.engineStep, hs] at hn
  rw [hs] at hsending
  have hrest : ∀ r ∈ clientResponses rest, r ∈ clientResponses x.threads.sent := by
    intro r hr
    refine hsending r ?_
    rw [← List.singleton_append, clientResponses_append]
    exact List.mem_append_right _ hr
  cases message with
  | clientResponse r =>
    obtain rfl := Except.ok.inj hn
    refine { h with sending := ?_, responses := h.responses.writerStep ?_ }
    · dsimp only
      split
      · exact hrest
      · exact hsending
    · exact hsending r List.mem_cons_self
  | marketUpdate u =>
    obtain rfl := Except.ok.inj hn
    refine { h with sending := ?_ }
    dsimp only
    split
    · exact hrest
    · exact hsending

theorem Answerable.engine (h : x.Answerable) (hn : x.engineStep = .ok x') : x'.Answerable := by
  rw [LiveExchange.engineStep] at hn
  split at hn
  · next hs =>
    split at hn
    · next i hr =>
      obtain ⟨threads, hthreads, hn⟩ := bind_eq_ok.1 hn
      obtain ⟨requests, hrequests, hn⟩ := bind_eq_ok.1 hn
      obtain rfl := Except.ok.inj hn
      have hprocessed := h.process hs (h.requests.use hr) hthreads
      exact { hprocessed with requests := hprocessed.requests.readerStep hrequests }
    · obtain ⟨requests, hrequests, hn⟩ := bind_eq_ok.1 hn
      obtain rfl := Except.ok.inj hn
      exact { h with requests := h.requests.readerStep hrequests }
  · next hs =>
    obtain ⟨threads, hthreads, hn⟩ := bind_eq_ok.1 hn
    obtain rfl := Except.ok.inj hn
    obtain ⟨message, rest, hcons⟩ := List.exists_cons_of_ne_nil hs
    exact h.sendStep hcons hthreads

/-- **The body of the loop** of `OrderServer::run`: the client has its socket, and the bytes go to
that socket only. -/
theorem Answerable.respond (h : x.Answerable) (sort) {r : MEClientResponse}
    (hr : x.HasSocket r.clientId) : ∃ socket server,
      firstSender x.heard r.clientId = some socket ∧
      x.server.step sort (.respond r) = .ok server ∧
      server.orderServer = x.server.orderServer.countOutgoing r.clientId ∧
      ∀ other, server.tcpSocket other = { x.server.tcpSocket other with
        sendBuffer := (x.server.tcpSocket other).sendBuffer ++ if other = socket then
          u64.encode (x.server.orderServer.clientIdOutgoingSeqNum r.clientId) ++
            (meClientResponseCodec.encode r).take OrderServer.sizeofPointer
          else [] } := by
  obtain ⟨hc, hne⟩ := hr
  obtain ⟨socket, hsocket⟩ := Option.ne_none_iff_exists'.1 hne
  refine ⟨socket, { x.server with
    orderServer := x.server.orderServer.countOutgoing r.clientId
    tcpSocket := LiveServer.sendTo x.server.tcpSocket (OrderServer.responseSends socket
      (x.server.orderServer.clientIdOutgoingSeqNum r.clientId) r) }, ?_, ?_, rfl, fun other => ?_⟩
  · rw [← h.server.sockets, hsocket]
  · rw [LiveServer.step, OrderServer.sendResponse_of_bound hc hsocket]
    rfl
  · dsimp only
    rw [LiveServer.sendTo_apply]
    by_cases ho : other = socket
    · subst ho
      simp [OrderServer.streamTo, OrderServer.responseSends]
    · simp [OrderServer.streamTo, OrderServer.responseSends, ho, Ne.symm ho]

/-- The order server's access to its queue, behind the body of its loop or without it. -/
theorem Answerable.orderServer (h : x.Answerable) {threads : EngineThreads}
    (hn : x.threads.step .orderServer = .ok threads) :
    ({ x with threads := threads } : LiveExchange).Answerable := by
  obtain ⟨q, hq, hn⟩ := bind_eq_ok.1 hn
  obtain rfl := Except.ok.inj hn
  exact { h with responses := h.responses.readerStep hq }

theorem Answerable.send (h : x.Answerable) (hn : x.sendStep sort = .ok x') : x'.Answerable := by
  rw [LiveExchange.sendStep] at hn
  split at hn
  · next i hr =>
    obtain ⟨server, hserver, hn⟩ := bind_eq_ok.1 hn
    obtain ⟨threads, hthreads, hn⟩ := bind_eq_ok.1 hn
    obtain rfl := Except.ok.inj hn
    obtain ⟨-, server', -, hserver', hcount, -⟩ := h.respond sort (h.sent _ (h.responses.use hr))
    obtain rfl := Except.ok.inj (hserver.symm.trans hserver')
    have hregistered : server.orderServer.Registered x.heard := by
      rw [hcount]
      exact ⟨h.server.sockets, h.server.inRange, h.server.pending⟩
    refine (h.withServer hregistered fun c hc => ?_).orderServer hthreads
    rw [hcount]
    exact hc
  · obtain ⟨threads, hthreads, hn⟩ := bind_eq_ok.1 hn
    obtain rfl := Except.ok.inj hn
    exact h.orderServer hthreads

/-- **One move.** -/
theorem Answerable.step (h : x.Answerable) (hsort : ∀ l, ∀ r ∈ sort l, r ∈ l) {m : Move}
    (hn : x.step sort m = .ok x') : x'.Answerable := by
  cases m with
  | receive socket rxTime bytes => exact h.receive hn
  | receiveFinished => exact h.receiveFinished hsort hn
  | sequence => exact Except.ok.inj hn ▸ h.sequence
  | engine => exact h.engine hn
  | send => exact h.send hn
  | marketDataPublisher =>
    obtain ⟨threads, hthreads, hn⟩ := bind_eq_ok.1 hn
    obtain rfl := Except.ok.inj hn
    obtain ⟨q, hq, hthreads⟩ := bind_eq_ok.1 hthreads
    obtain rfl := Except.ok.inj hthreads
    exact { h with }

/-! ## Every response has a socket to go to -/

/-- What is asked of a state: the responses that have been sent, the request the engine takes up and
the orders that rest are of clients with a socket, and `OrderServer::run` sends what it reads to
the socket that was first to send a request for the client. -/
structure Answers (sort : List RecvTimeClientRequest → List RecvTimeClientRequest)
    (x : LiveExchange) : Prop where
  sent : ∀ r ∈ clientResponses x.threads.sent, x.HasSocket r.clientId
  taken : ∀ i, x.requests.reader = .use i → x.HasSocket (x.requests.queue.store i).clientId
  resting : ∀ t d, (x.threads.engine.tickerOrderBook t).Rests d → x.HasSocket d.clientId
  first : ∀ c, x.server.orderServer.clientIdSocket c = firstSender x.heard c
  sends : ∀ i, x.threads.responses.reader = .use i →
    x.threads.responses.queue.store i ∈ clientResponses x.threads.sent ∧
    ∃ socket x', firstSender x.heard (x.threads.responses.queue.store i).clientId = some socket ∧
      x.step sort .send = .ok x' ∧
      ∀ other, x'.server.tcpSocket other = { x.server.tcpSocket other with
        sendBuffer := (x.server.tcpSocket other).sendBuffer ++ if other = socket then
          u64.encode (x.server.orderServer.clientIdOutgoingSeqNum
            (x.threads.responses.queue.store i).clientId) ++
              (meClientResponseCodec.encode (x.threads.responses.queue.store i)).take
                OrderServer.sizeofPointer
          else [] }

theorem Answerable.answers (h : x.Answerable)
    (sort : List RecvTimeClientRequest → List RecvTimeClientRequest) : x.Answers sort where
  sent := h.sent
  taken := fun _ hr => h.requests.use hr
  resting := fun t d hd => by
    obtain ⟨ring, hslots, hown⟩ := h.books t
    obtain ⟨i, hi⟩ := hslots.rests_iff.1 hd
    exact hown i d hi
  first := h.server.sockets
  sends := fun i hr => by
    have hsent := h.responses.use hr
    obtain ⟨socket, server, hfirst, hserver, -, hbytes⟩ := h.respond sort (h.sent _ hsent)
    refine ⟨hsent, socket, { x with
      server := server
      threads := { x.threads with responses := { x.threads.responses with
        taken := x.threads.responses.taken ++ [x.threads.responses.queue.store i]
        reader := .loadIndex } } }, hfirst, ?_, hbytes⟩
    rw [LiveExchange.step, LiveExchange.sendStep]
    simp only [hr, hserver, ok_bind, EngineThreads.step, QueueRun.readerStep, pure_eq_ok]

/-- **Every response has a socket to go to**, wherever a run of the exchange gets.  A request with a
client id outside the tables ends a run. -/
theorem answers_of_run (hs : StableSort.Sorts RecvTimeClientRequest.time sort) (moves : List Move)
    (hrun : ({} : LiveExchange).run sort moves = .ok x) : x.Answers sort := by
  have hsort : ∀ l, ∀ r ∈ sort l, r ∈ l := fun l r hr => (hs.perm l).mem_iff.1 hr
  exact (Run.inv_of_foldlM Answerable (fun _ _ _ h => h.step hsort) answerable_start hrun).answers _

/-- A `CANCEL` of an order that does not exist, from socket 7 to the body of the loop of `run`. -/
def cancelMoves : List Move :=
  [.receive 7 3 (omClientRequestCodec.encode ⟨1, EngineThreads.unknownCancel⟩), .receiveFinished] ++
    List.replicate 5 .sequence ++ List.replicate 9 .engine ++ List.replicate 4 .send

/-- The element the order server is about to send. -/
def sendingSlot (x : LiveExchange) : Option Nat :=
  match x.threads.responses.reader with
  | .use i => some i
  | _ => none

/-- It gets there. -/
theorem answers_of_run_cancel : ∃ x : LiveExchange,
    ({} : LiveExchange).run (StableSort.stableSort RecvTimeClientRequest.time) cancelMoves = .ok x ∧
      x.sendingSlot = some 0 ∧ x.Answers (StableSort.stableSort RecvTimeClientRequest.time) := by
  have hslot : (({} : LiveExchange).run (StableSort.stableSort RecvTimeClientRequest.time)
      cancelMoves).map sendingSlot = .ok (some 0) := by
    decide +kernel
  cases hrun : ({} : LiveExchange).run (StableSort.stableSort RecvTimeClientRequest.time)
      cancelMoves with
  | error e =>
    rw [hrun] at hslot
    exact absurd hslot (by simp [Except.map])
  | ok x =>
    rw [hrun] at hslot
    exact ⟨x, rfl, Except.ok.inj hslot,
      answers_of_run StableSort.sorts_stableSort cancelMoves hrun⟩

end LiveExchange
end Exchange
end TradingEcosystem
