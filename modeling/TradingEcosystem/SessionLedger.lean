import TradingEcosystem.Exchange.ExchangeMain
import TradingEcosystem.Lib.History
import TradingEcosystem.RequestBurst

/-!
# The ledger of the order server

Any clients send any bytes, in pieces of any size, and responses go out in between.  The ledger has
an entry for every complete request, with whether it was handed to the sequencer, and for every
response, with the socket and the number it was sent with.

What the server does can be read off the ledger alone (`Lawful`).  A client belongs to the socket
that named it first.  A request is handed over exactly when it comes on that socket and its number
is one more than the number of requests handed over and responses sent in the session so far; a
response is sent on that socket with that number.  `ledger_of_run` adds that the ledger is
complete: its requests are those in the stream of bytes, and its responses are what is on the
sockets.
-/

set_option autoImplicit false

namespace TradingEcosystem
namespace Exchange

open Codec StableSort History

/-- What happened at the order server. -/
inductive LedgerEntry where
  /-- A request was complete, and it was handed to the sequencer or passed over. -/
  | request (arrival : Arrival) (handedOver : Bool)
  /-- A response was sent. -/
  | response (socket : Socket) (seqNum : UInt64) (clientResponse : MEClientResponse)

namespace LedgerEntry

/-- The socket that named a client. -/
def heard : LedgerEntry → List (Socket × ClientId)
  | .request a _ => [(a.socket, a.request.meClientRequest.clientId)]
  | .response _ _ _ => []

/-- Requests that were handed over and responses count in the session of their client. -/
def counts (c : ClientId) : LedgerEntry → Bool
  | .request a handedOver => handedOver && a.request.meClientRequest.clientId = c
  | .response _ _ r => r.clientId = c

def handed : LedgerEntry → List Arrival
  | .request a handedOver => if handedOver then [a] else []
  | .response _ _ _ => []

/-- The request, if it came on this socket. -/
def requestOn (socket : Socket) : LedgerEntry → List OMClientRequest
  | .request a _ => if a.socket = socket then [a.request] else []
  | .response _ _ _ => []

def responded : LedgerEntry → List MEClientResponse
  | .request _ _ => []
  | .response _ _ r => [r]

/-- The bytes of a response, if it was sent on this socket. -/
def bytesTo (socket : Socket) : LedgerEntry → List UInt8
  | .request _ _ => []
  | .response x n r =>
    if x = socket then u64.encode n ++ (meClientResponseCodec.encode r).take
      OrderServer.sizeofPointer
    else []

end LedgerEntry

namespace Ledger

variable (ledger : List LedgerEntry)

/-- The socket that named the client first. -/
def owner (c : ClientId) : Option Socket := firstSender (ledger.flatMap LedgerEntry.heard) c

/-- The number the next entry of a session has to have. -/
def nextNumber (c : ClientId) : UInt64 := .ofNat (ledger.countP (LedgerEntry.counts c) + 1)

/-- An entry behind these. -/
def Follows : LedgerEntry → Prop
  | .request a handedOver =>
    let c := a.request.meClientRequest.clientId
    handedOver = true ↔
      (owner ledger c = none ∨ owner ledger c = some a.socket) ∧
        a.request.seqNum = nextNumber ledger c
  | .response socket n r => owner ledger r.clientId = some socket ∧ n = nextNumber ledger r.clientId

/-- **The law of the sessions**, at every entry. -/
def Lawful : Prop := Throughout Follows ledger

variable {ledger}

theorem owner_concat (e : LedgerEntry) (c : ClientId) :
    owner (ledger ++ [e]) c = (owner ledger c).or (firstSender e.heard c) := by
  rw [owner, List.flatMap_append, firstSender_append, List.flatMap_singleton]
  rfl

theorem nextNumber_concat (e : LedgerEntry) (c : ClientId) : nextNumber (ledger ++ [e]) c =
    if e.counts c then nextNumber ledger c + 1 else nextNumber ledger c := by
  rw [nextNumber, List.countP_append, List.countP_singleton, nextNumber]
  split
  · exact UInt64.ofNat_add _ 1
  · rfl

end Ledger

/-! ## One message -/

namespace OrderServer

variable {s s' : OrderServer} {ledger : List LedgerEntry}

/-- What `handleRequest` did with the request, when it got from one server to the other. -/
def entryOf (s s' : OrderServer) (a : Arrival) : LedgerEntry :=
  .request a (s.fifoSequencer.pendingClientRequests.length <
    s'.fifoSequencer.pendingClientRequests.length)

/-- The entries for the requests of a read. -/
def entriesOf (s : OrderServer) (socket : Socket) (rxTime : Nanos) :
    List OMClientRequest → List LedgerEntry
  | [] => []
  | r :: rest =>
    match s.handleRequest socket rxTime r with
    | .ok s' => s.entryOf s' ⟨socket, rxTime, r⟩ :: s'.entriesOf socket rxTime rest
    | .error _ => []

/-- The tables of the server are those of the ledger. -/
structure Enters (ledger : List LedgerEntry) (s : OrderServer) : Prop where
  sockets : ∀ c, s.clientIdSocket c = Ledger.owner ledger c
  numbers : ∀ c, s.clientIdOutgoingSeqNum c = Ledger.nextNumber ledger c

/-- **What becomes of a request**: it is handed over if it is due, and nothing but the client's
socket changes if not. -/
theorem handleRequest_cases {a : Arrival}
    (h : s.handleRequest a.socket a.rxTime a.request = .ok s') :
    s.Due a ∧ s' = s.accept a ∨
      ¬ s.Due a ∧ s'.clientIdOutgoingSeqNum = s.clientIdOutgoingSeqNum ∧
        s'.fifoSequencer = s.fifoSequencer := by
  obtain ⟨hc, -⟩ := handleRequest_eq_ok h
  by_cases hdue : s.Due a
  · rw [handleRequest_of_due hdue] at h
    split at h
    · exact absurd h (by simp)
    · exact .inl ⟨hdue, (Except.ok.inj h).symm⟩
  · refine .inr ⟨hdue, ?_⟩
    by_cases hs : s.clientIdSocket a.request.meClientRequest.clientId = none ∨
        s.clientIdSocket a.request.meClientRequest.clientId = some a.socket
    · rw [handleRequest_of_bound hc hs] at h
      dsimp only at h
      rw [if_neg fun hnumber => hdue ⟨hc, hs, hnumber⟩] at h
      obtain rfl := Except.ok.inj h
      rw [bindSocket]
      split <;> exact ⟨rfl, rfl⟩
    · obtain ⟨hbound, hother⟩ := not_or.1 hs
      rw [handleRequest_of_foreign hc hbound hother] at h
      obtain rfl := Except.ok.inj h
      exact ⟨rfl, rfl⟩

/-- A request is handed over when it is due. -/
theorem entryOf_eq {a : Arrival} (h : s.handleRequest a.socket a.rxTime a.request = .ok s') :
    ∃ handedOver : Bool, s.entryOf s' a = .request a handedOver ∧
      (handedOver = true ↔ s.Due a) ∧
      s'.fifoSequencer.pendingClientRequests = s.fifoSequencer.pendingClientRequests ++
        ((s.entryOf s' a).handed.map Arrival.pending) := by
  rw [entryOf]
  refine ⟨_, rfl, ?_⟩
  rcases handleRequest_cases h with ⟨hdue, rfl⟩ | ⟨hdue, -, hsame⟩
  · have hlt : s.fifoSequencer.pendingClientRequests.length <
        (s.accept a).fifoSequencer.pendingClientRequests.length := by
      rw [length_pending_accept]
      exact Nat.lt_succ_self _
    rw [decide_eq_true hlt]
    exact ⟨iff_of_true rfl hdue, rfl⟩
  · rw [hsame, decide_eq_false (Nat.lt_irrefl _)]
    exact ⟨iff_of_false Bool.false_ne_true hdue, (List.append_nil _).symm⟩

theorem enters_init : init.Enters [] where
  sockets := fun _ => rfl
  numbers := fun _ => rfl

/-- **One request.** -/
theorem Enters.handleRequest (hs : s.Enters ledger) {a : Arrival}
    (h : s.handleRequest a.socket a.rxTime a.request = .ok s') :
    Ledger.Follows ledger (s.entryOf s' a) ∧ s'.Enters (ledger ++ [s.entryOf s' a]) := by
  obtain ⟨hc, hsocket, -⟩ := handleRequest_eq_ok h
  obtain ⟨handedOver, hentry, hdue, -⟩ := entryOf_eq h
  rw [hentry]
  refine ⟨?_, fun c => ?_, fun c => ?_⟩
  · rw [Ledger.Follows, ← hs.sockets, ← hs.numbers, hdue]
    exact ⟨fun hd => ⟨hd.own, hd.number⟩, fun ⟨hown, hnumber⟩ => ⟨hc, hown, hnumber⟩⟩
  · rw [hsocket, clientIdSocket_bindSocket, Ledger.owner_concat, hs.sockets]
    rfl
  · rw [Ledger.nextNumber_concat, LedgerEntry.counts, ← hs.numbers]
    rcases handleRequest_cases h with ⟨hd, rfl⟩ | ⟨hd, hsame, -⟩
    · rw [hdue.2 hd, clientIdOutgoingSeqNum_accept, Function.update_apply, Bool.true_and]
      by_cases hcr : c = a.request.meClientRequest.clientId
      · subst hcr
        simp
      · simp [hcr, Ne.symm hcr]
    · rw [Bool.eq_false_iff.2 fun ht => hd (hdue.1 ht), hsame]
      rfl

/-! ## A read -/

section Read

variable {socket : Socket} {rxTime : Nanos}

theorem entriesOf_cons {r : OMClientRequest} {rest : List OMClientRequest} {s₁ : OrderServer}
    (h : s.handleRequest socket rxTime r = .ok s₁) : s.entriesOf socket rxTime (r :: rest) =
      s.entryOf s₁ ⟨socket, rxTime, r⟩ :: s₁.entriesOf socket rxTime rest := by
  rw [entriesOf, h]

/-- A read enters its requests and nothing else. -/
theorem mem_entriesOf {requests : List OMClientRequest} {e : LedgerEntry}
    (he : e ∈ s.entriesOf socket rxTime requests) :
    ∃ r handedOver, e = .request ⟨socket, rxTime, r⟩ handedOver := by
  induction requests generalizing s with
  | nil => exact absurd he List.not_mem_nil
  | cons r rest ih =>
    rw [entriesOf] at he
    split at he
    · rcases List.mem_cons.1 he with rfl | he
      · exact ⟨r, _, rfl⟩
      · exact ih he
    · exact absurd he List.not_mem_nil

/-- It enters all of them. -/
theorem requestOn_entriesOf (requests : List OMClientRequest) {s : OrderServer}
    (h : s.handleAll socket rxTime requests = .ok s') :
    (s.entriesOf socket rxTime requests).flatMap (LedgerEntry.requestOn socket) = requests := by
  induction requests generalizing s with
  | nil => rfl
  | cons r rest ih =>
    rw [handleAll_cons] at h
    obtain ⟨s₁, hr, h⟩ := bind_eq_ok.1 h
    rw [entriesOf_cons hr, List.flatMap_cons, ih h, entryOf, LedgerEntry.requestOn, if_pos rfl]
    rfl

theorem requestOn_entriesOf_of_ne {x : Socket} (hx : x ≠ socket) (requests : List OMClientRequest) :
    (s.entriesOf socket rxTime requests).flatMap (LedgerEntry.requestOn x) = [] := by
  refine List.flatMap_eq_nil_iff.2 fun e he => ?_
  obtain ⟨r, handedOver, rfl⟩ := mem_entriesOf he
  exact if_neg (Ne.symm hx)

/-- Requests are not answered while they are read. -/
theorem responded_entriesOf (requests : List OMClientRequest) :
    (s.entriesOf socket rxTime requests).flatMap LedgerEntry.responded = [] := by
  refine List.flatMap_eq_nil_iff.2 fun e he => ?_
  obtain ⟨r, handedOver, rfl⟩ := mem_entriesOf he
  rfl

theorem bytesTo_entriesOf (x : Socket) (requests : List OMClientRequest) :
    (s.entriesOf socket rxTime requests).flatMap (LedgerEntry.bytesTo x) = [] := by
  refine List.flatMap_eq_nil_iff.2 fun e he => ?_
  obtain ⟨r, handedOver, rfl⟩ := mem_entriesOf he
  rfl

/-- **The requests of a read.** -/
theorem Enters.handleAll (requests : List OMClientRequest) {s : OrderServer}
    {ledger : List LedgerEntry} (hs : s.Enters ledger) (hlaw : Ledger.Lawful ledger)
    (h : s.handleAll socket rxTime requests = .ok s') :
    s'.Enters (ledger ++ s.entriesOf socket rxTime requests) ∧
      Ledger.Lawful (ledger ++ s.entriesOf socket rxTime requests) ∧
      s'.fifoSequencer.pendingClientRequests = s.fifoSequencer.pendingClientRequests ++
        ((s.entriesOf socket rxTime requests).flatMap LedgerEntry.handed).map Arrival.pending := by
  induction requests generalizing s ledger with
  | nil =>
    obtain rfl := Except.ok.inj h
    rw [entriesOf, List.append_nil]
    exact ⟨hs, hlaw, (List.append_nil _).symm⟩
  | cons r rest ih =>
    rw [handleAll_cons] at h
    obtain ⟨s₁, hr, h⟩ := bind_eq_ok.1 h
    have hr' : s.handleRequest (Arrival.mk socket rxTime r).socket
      (Arrival.mk socket rxTime r).rxTime (Arrival.mk socket rxTime r).request = .ok s₁ := hr
    obtain ⟨hfollows, hs₁⟩ := hs.handleRequest hr'
    obtain ⟨-, -, -, hpending⟩ := entryOf_eq hr'
    obtain ⟨hs', hlaw', hpending'⟩ := ih hs₁ (throughout_concat.2 ⟨hlaw, hfollows⟩) h
    rw [List.append_assoc, List.singleton_append] at hs' hlaw'
    rw [entriesOf_cons hr]
    refine ⟨hs', hlaw', ?_⟩
    rw [hpending', hpending, List.flatMap_cons, List.map_append, List.append_assoc]

end Read

end OrderServer

/-! ## Runs -/

/-- The server, and its ledger. -/
structure LedgerRun where
  server : LiveServer := { orderServer := .init }
  ledger : List LedgerEntry := []

/-- What is entered for an event. -/
def LiveServer.entries (l : LiveServer) : ServerEvent → List LedgerEntry
  | .read socket rxTime bytes => l.orderServer.entriesOf socket rxTime (l.received socket bytes)
  | .finished => []
  | .respond r =>
    match l.orderServer.clientIdSocket r.clientId with
    | some socket => [.response socket (l.orderServer.clientIdOutgoingSeqNum r.clientId) r]
    | none => []

namespace ServerEvent

/-- The bytes that come on a socket. -/
def bytesOn (socket : Socket) : ServerEvent → List UInt8
  | .read x _ bytes => if x = socket then bytes else []
  | .finished => []
  | .respond _ => []

/-- The responses that are taken off the queue. -/
def responses : ServerEvent → List MEClientResponse
  | .read _ _ _ => []
  | .finished => []
  | .respond r => [r]

end ServerEvent

namespace LedgerRun

variable (sort : List RecvTimeClientRequest → List RecvTimeClientRequest)

/-- One event. -/
def step (x : LedgerRun) (e : ServerEvent) : Except Fault LedgerRun := do
  let server ← x.server.step sort e
  return { server := server, ledger := x.ledger ++ x.server.entries e }

/-- One event after the other. -/
def run (x : LedgerRun) (events : List ServerEvent) : Except Fault LedgerRun :=
  events.foldlM (step sort) x

/-- The requests that were handed to the sequencer. -/
def handed (x : LedgerRun) : List Arrival := x.ledger.flatMap LedgerEntry.handed

/-- **The ledger is right and complete.** -/
structure Balanced (events : List ServerEvent) (x : LedgerRun) : Prop where
  lawful : Ledger.Lawful x.ledger
  /-- On every socket the requests are those in the stream of its bytes, however it was cut. -/
  requests : ∀ socket, omClientRequestCodec.chunks (events.flatMap (ServerEvent.bytesOn socket)) =
    (x.ledger.flatMap (LedgerEntry.requestOn socket), (x.server.tcpSocket socket).rcvBuffer)
  responses : x.ledger.flatMap LedgerEntry.responded = events.flatMap ServerEvent.responses
  /-- The matching engine gets each request that was handed over once. -/
  published : (x.server.published ++
    x.server.orderServer.fifoSequencer.pendingClientRequests.map (·.request)).Perm
      (x.handed.map fun a => a.request.meClientRequest)
  /-- On every socket are the bytes of its responses. -/
  sent : ∀ socket, (x.server.tcpSocket socket).sendBuffer =
    x.ledger.flatMap (LedgerEntry.bytesTo socket)

/-- The invariant: the server's tables are those of the ledger, which balances. -/
structure Sound (events : List ServerEvent) (x : LedgerRun) : Prop
    extends x.Balanced events where
  enters : x.server.orderServer.Enters x.ledger

variable {sort} {x x' : LedgerRun} {events : List ServerEvent}

theorem sound_start : ({} : LedgerRun).Sound [] where
  lawful := throughout_nil
  requests := fun _ => rfl
  responses := rfl
  published := .refl _
  sent := fun _ => rfl
  enters := OrderServer.enters_init

/-- Less than a request waits. -/
theorem Balanced.length_rcvBuffer (h : x.Balanced events) (socket : Socket) :
    (x.server.tcpSocket socket).rcvBuffer.length < omClientRequestCodec.size := by
  have hlt := omClientRequestCodec.length_chunks_lt OrderServer.size_pos
    (events.flatMap (ServerEvent.bytesOn socket))
  rwa [h.requests] at hlt

/-- The requests of a read, where less than a request waits. -/
theorem received_of_short {l : LiveServer} {socket : Socket} (bytes : List UInt8)
    (h : (l.tcpSocket socket).rcvBuffer.length < omClientRequestCodec.size) :
    l.received socket bytes =
      (omClientRequestCodec.chunks ((l.tcpSocket socket).rcvBuffer ++ bytes)).1 := by
  rw [LiveServer.received]
  split
  · next hb => rw [hb, List.append_nil, chunks_of_lt _ h]
  · rfl

theorem Sound.read (h : x.Sound events) {socket : Socket} {rxTime : Nanos} {bytes : List UInt8}
    (hn : x.step sort (.read socket rxTime bytes) = .ok x') :
    x'.Sound (events ++ [.read socket rxTime bytes]) := by
  obtain ⟨server, hread, hn⟩ := bind_eq_ok.1 hn
  obtain rfl := Except.ok.inj hn
  have hshort := h.toBalanced.length_rcvBuffer socket
  change x.server.read socket rxTime bytes = .ok server at hread
  rw [LiveServer.read_of_short _ _ _ _ hshort] at hread
  obtain ⟨s, hall, rfl⟩ := map_eq_ok.1 hread
  have hentries : x.server.entries (.read socket rxTime bytes) =
      x.server.orderServer.entriesOf socket rxTime
        (omClientRequestCodec.chunks ((x.server.tcpSocket socket).rcvBuffer ++ bytes)).1 := by
    rw [LiveServer.entries, received_of_short bytes hshort]
  rw [hentries]
  obtain ⟨henters, hlaw, hpending⟩ := h.enters.handleAll _ h.lawful hall
  refine ⟨⟨hlaw, fun y => ?_, ?_, ?_, fun y => ?_⟩, henters⟩
  · rw [List.flatMap_append, List.flatMap_singleton, List.flatMap_append]
    by_cases hy : y = socket
    · subst hy
      rw [ServerEvent.bytesOn, if_pos rfl,
        chunks_append_bytes _ OrderServer.size_pos, h.requests,
        OrderServer.requestOn_entriesOf _ hall]
      exact congrArg (Prod.mk _) (LiveServer.rcvBuffer_afterRead_self _ _ _ _).symm
    · rw [ServerEvent.bytesOn, if_neg (Ne.symm hy), List.append_nil, h.requests,
        OrderServer.requestOn_entriesOf_of_ne hy, List.append_nil,
        LiveServer.rcvBuffer_afterRead_of_ne _ hy]
  · rw [List.flatMap_append, OrderServer.responded_entriesOf, List.append_nil, h.responses,
      List.flatMap_append, List.flatMap_singleton, ServerEvent.responses, List.append_nil]
  · have hsame : (x.server.afterRead socket ((x.server.tcpSocket socket).rcvBuffer ++ bytes)
        s).published = x.server.published := rfl
    have hserver : (x.server.afterRead socket ((x.server.tcpSocket socket).rcvBuffer ++ bytes)
        s).orderServer = s := rfl
    rw [hsame, hserver, hpending, handed, List.flatMap_append, List.map_append, List.map_append,
      List.map_map, ← List.append_assoc]
    exact h.published.append_right _
  · rw [LiveServer.sendBuffer_afterRead, List.flatMap_append, OrderServer.bytesTo_entriesOf,
      List.append_nil]
    exact h.sent y

theorem Sound.finished (h : x.Sound events) (hs : Sorts RecvTimeClientRequest.time sort)
    (hn : x.step sort .finished = .ok x') : x'.Sound (events ++ [.finished]) := by
  obtain ⟨server, hfinished, hn⟩ := bind_eq_ok.1 hn
  obtain rfl := Except.ok.inj hn
  obtain rfl := Except.ok.inj hfinished
  have hevents : ∀ {α : Type} {f : ServerEvent → List α}, f .finished = [] →
      (events ++ [ServerEvent.finished]).flatMap f = events.flatMap f := fun hf => by
    rw [List.flatMap_append, List.flatMap_singleton, hf, List.append_nil]
  refine ⟨⟨?_, fun y => ?_, ?_, ?_, fun y => ?_⟩, ?_⟩
  · rw [LiveServer.entries, List.append_nil]
    exact h.lawful
  · rw [LiveServer.entries, List.append_nil, hevents rfl]
    exact h.requests y
  · rw [LiveServer.entries, List.append_nil, hevents rfl]
    exact h.responses
  · rw [LiveServer.entries, List.append_nil]
    change (x.server.published ++ (x.server.orderServer.recvFinishedCallback sort).2 ++
      (x.server.orderServer.fifoSequencer.sequenceAndPublish sort).1.pendingClientRequests.map
        (·.request)).Perm _
    rw [FIFOSequencer.pending_sequenceAndPublish, List.map_nil, List.append_nil]
    exact ((OrderServer.recvFinishedCallback_perm hs _).append_left _).trans h.published
  · rw [LiveServer.entries, List.append_nil]
    exact h.sent y
  · rw [LiveServer.entries, List.append_nil]
    exact ⟨h.enters.sockets, h.enters.numbers⟩

/-- What is sent for a response. -/
theorem respond_eq_ok {l l' : LiveServer} {r : MEClientResponse}
    (h : l.step sort (.respond r) = .ok l') : ∃ socket,
    l.orderServer.clientIdSocket r.clientId = some socket ∧ l' = { l with
      orderServer := l.orderServer.countOutgoing r.clientId
      tcpSocket := LiveServer.sendTo l.tcpSocket (OrderServer.responseSends socket
        (l.orderServer.clientIdOutgoingSeqNum r.clientId) r) } := by
  obtain ⟨⟨s, sends⟩, hsend, hn⟩ := bind_eq_ok.1 h
  obtain rfl := Except.ok.inj hn
  have hbound := hsend
  rw [OrderServer.sendResponse] at hbound
  split at hbound
  · next hc =>
    obtain ⟨_, hassert, -⟩ := bind_eq_ok.1 hbound
    obtain ⟨socket, hsome⟩ := Option.ne_none_iff_exists'.1 (assert_eq_ok.1 hassert)
    rw [OrderServer.sendResponse_of_bound hc hsome] at hsend
    obtain ⟨rfl, rfl⟩ := Prod.mk.inj (Except.ok.inj hsend)
    exact ⟨socket, hsome, rfl⟩
  · exact absurd hbound (by simp)

theorem streamTo_responseSends (x socket : Socket) (n : UInt64) (r : MEClientResponse) :
    OrderServer.streamTo x (OrderServer.responseSends socket n r) =
      LedgerEntry.bytesTo x (.response socket n r) := by
  rw [OrderServer.streamTo, OrderServer.responseSends, LedgerEntry.bytesTo]
  by_cases hx : socket = x
  · simp [hx]
  · simp [hx]

theorem Sound.respond (h : x.Sound events) {r : MEClientResponse}
    (hn : x.step sort (.respond r) = .ok x') : x'.Sound (events ++ [.respond r]) := by
  obtain ⟨server, hrespond, hn⟩ := bind_eq_ok.1 hn
  obtain rfl := Except.ok.inj hn
  obtain ⟨socket, hsocket, rfl⟩ := respond_eq_ok hrespond
  have hentries : x.server.entries (.respond r) =
      [.response socket (x.server.orderServer.clientIdOutgoingSeqNum r.clientId) r] := by
    rw [LiveServer.entries, hsocket]
  rw [hentries]
  refine ⟨⟨throughout_concat.2 ⟨h.lawful, ?_, h.enters.numbers _⟩, fun y => ?_, ?_, ?_, fun y => ?_⟩,
    fun c => ?_, fun c => ?_⟩
  · rw [← h.enters.sockets]
    exact hsocket
  · dsimp only
    rw [LiveServer.sendTo_apply, List.flatMap_append, List.flatMap_append, List.flatMap_singleton,
      List.flatMap_singleton, ServerEvent.bytesOn, LedgerEntry.requestOn, List.append_nil,
      List.append_nil]
    exact h.requests y
  · rw [List.flatMap_append, List.flatMap_append, h.responses]
    rfl
  · rw [handed, List.flatMap_append, List.flatMap_singleton, LedgerEntry.handed, List.append_nil]
    exact h.published
  · dsimp only
    rw [LiveServer.sendTo_apply, List.flatMap_append, List.flatMap_singleton,
      streamTo_responseSends, ← h.sent]
  · rw [Ledger.owner_concat, LedgerEntry.heard, ← h.enters.sockets]
    exact Option.or_none.symm
  · rw [Ledger.nextNumber_concat, LedgerEntry.counts, ← h.enters.numbers]
    dsimp only [OrderServer.countOutgoing]
    rw [Function.update_apply]
    by_cases hc : c = r.clientId
    · subst hc
      simp
    · simp [hc, Ne.symm hc]

/-- **One event.** -/
theorem Sound.step (h : x.Sound events) (hs : Sorts RecvTimeClientRequest.time sort)
    {e : ServerEvent} (hn : x.step sort e = .ok x') : x'.Sound (events ++ [e]) := by
  cases e with
  | read socket rxTime bytes => exact h.read hn
  | finished => exact h.finished hs hn
  | respond r => exact h.respond hn

/-- The invariant, wherever a run gets to. -/
theorem sound_of_run (hs : Sorts RecvTimeClientRequest.time sort)
    (hrun : ({} : LedgerRun).run sort events = .ok x) : x.Sound events :=
  inv_of_foldlM_past (fun past x => x.Sound past) (fun _ _ _ _ h hn => h.step hs hn) events
    sound_start hrun

/-- **The sessions of the order server.**  Whatever bytes come on whatever sockets, and whatever
responses are sent in between: the ledger obeys the law of the sessions, has every request and every
response, and accounts for what the matching engine gets and for all that is on the sockets. -/
theorem ledger_of_run (hs : Sorts RecvTimeClientRequest.time sort)
    (hrun : ({} : LedgerRun).run sort events = .ok x) : x.Balanced events :=
  (sound_of_run hs hrun).toBalanced

/-- Client 1 on socket 7, with its first request in two pieces and another socket in between.  It is
answered, and goes on with its second request, as a client should. -/
def answeredSession : List ServerEvent :=
  let first := omClientRequestCodec.encode ⟨1, EngineThreads.unknownCancel⟩
  [.read 7 3 (first.take 20), .read 7 4 (first.drop 20), .read 8 4 first, .finished,
   .respond (MEOrderBook.cancelRejectedResponse EngineThreads.unknownCancel),
   .read 7 5 (omClientRequestCodec.encode ⟨2, EngineThreads.unknownCancel⟩)]

/-- Its second request is passed over: the answer had number 2. -/
theorem ledger_of_run_answered : ∃ x : LedgerRun,
    ({} : LedgerRun).run (stableSort RecvTimeClientRequest.time) answeredSession = .ok x ∧
    (x.ledger.flatMap LedgerEntry.handed).map (·.request.seqNum) = [1] ∧
    x.Balanced answeredSession := by
  have hend : (({} : LedgerRun).run (stableSort RecvTimeClientRequest.time) answeredSession).map
      (fun x => (x.ledger.flatMap LedgerEntry.handed).map (·.request.seqNum)) = .ok [1] := by
    decide +kernel
  obtain ⟨x, hrun, hhanded⟩ := map_eq_ok.1 hend
  exact ⟨x, hrun, hhanded, ledger_of_run sorts_stableSort hrun⟩

end LedgerRun
end Exchange
end TradingEcosystem
