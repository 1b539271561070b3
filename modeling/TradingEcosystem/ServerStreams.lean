import TradingEcosystem.Exchange.ServerLoop
import TradingEcosystem.SessionLedger

/-!
# The connections of the order server

The loop of the order server with a record of the bytes that came in and of those that went out on
each connection.  The kernel takes a send buffer at once, which is all `sendAndRecv` can bear.

What is on the connections is then a ledger of lawful sessions (`delivered_of_run`): the requests
are in the bytes that came in, however they were cut, and the bytes that went out are those of the
responses, in their order, up to the responses of the last round, which wait in the send buffers.  A
connection that was reported broken is not written to any more, and keeps what waits for it.

The proof takes the sends out: a server that never sends has in its buffers what has gone out and
what waits (`unsent`), and is the one that `LedgerRun` describes.
-/

set_option autoImplicit false

namespace TradingEcosystem
namespace Exchange

open Codec StableSort History TCPServer

/-- The order server, with the bytes that came in and went out on its connections. -/
structure ServerStreams where
  server : LiveServer := { orderServer := .init }
  cameIn : Socket → List UInt8 := fun _ => []
  wentOut : Socket → List UInt8 := fun _ => []

/-- `sendAndRecv` of a socket, with the record of what it reads and of what the kernel takes. -/
def ServerRound.sendAndRecvStreams (r : ServerRound) (y : ServerStreams) (s : SocketPtr) :
    Except Fault ServerStreams := do
  let server ← r.sendAndRecv y.server s
  match s with
  | .listener => return { y with server := server }
  | .connection socket =>
    let taken := ((y.server.tcpSocket socket).sendLoopAfter (r.kernel socket) (r.calls socket)).accepted
    return {
      server := server
      cameIn := Function.update y.cameIn socket (y.cameIn socket ++ (r.received socket).2)
      wentOut := Function.update y.wentOut socket (y.wentOut socket ++ taken) }

/-- The kernel takes what it is given. -/
def ServerRound.TakesAtOnce (r : ServerRound) : Prop :=
  ∀ socket n, 0 < n → (r.kernel socket).answer 0 n = .accepted n

/-- The loop with the record. -/
structure StreamedLoop where
  tcpServer : TCPServer := .listen
  streams : ServerStreams := {}

namespace StreamedLoop

/-- Without the record. -/
def loop (x : StreamedLoop) : ServerLoop := ⟨x.tcpServer, x.streams.server⟩

variable (sort : List RecvTimeClientRequest → List RecvTimeClientRequest)

/-- One round. -/
def round (x : StreamedLoop) (r : ServerRound) : Except Fault StreamedLoop := do
  let t ← x.tcpServer.poll r.poll
  let y ← t.recvSockets.foldlM r.sendAndRecvStreams x.streams
  let l ← ServerLoop.recvFinished sort t y.server r
  let y ← t.sendSockets.foldlM r.sendAndRecvStreams { y with server := l }
  let l ← ServerLoop.respondAll sort y.server r.responses
  return ⟨t, { y with server := l }⟩

/-- Round after round. -/
def run (x : StreamedLoop) (rounds : List ServerRound) : Except Fault StreamedLoop :=
  rounds.foldlM (round sort) x

end StreamedLoop

namespace ServerStreams

variable {sort : List RecvTimeClientRequest → List RecvTimeClientRequest} {y y' : ServerStreams}
  {l l' : LiveServer}

/-! ## The server that does not send -/

/-- The server as it would be if nothing had gone out. -/
def unsent (y : ServerStreams) : LiveServer :=
  { y.server with
    tcpSocket := fun socket => {
      sendBuffer := y.wentOut socket ++ (y.server.tcpSocket socket).sendBuffer
      rcvBuffer := (y.server.tcpSocket socket).rcvBuffer } }

theorem unsent_read {socket : Socket} {rxTime : Nanos} {bytes : List UInt8}
    (h : y.server.read socket rxTime bytes = .ok l') :
    y.unsent.read socket rxTime bytes = .ok ({ y with server := l' } : ServerStreams).unsent := by
  rw [LiveServer.read] at h ⊢
  split at h
  · next hb =>
    obtain rfl := Except.ok.inj h
    rw [if_pos hb]
  · next hb =>
    obtain ⟨⟨s, rest, copy⟩, hcallback, h⟩ := bind_eq_ok.1 h
    obtain rfl := Except.ok.inj h
    rw [if_neg hb]
    refine bind_eq_ok.2 ⟨(s, rest, copy), hcallback, ?_⟩
    have hsockets : Function.update y.unsent.tcpSocket socket
        { y.unsent.tcpSocket socket with rcvBuffer := rest } = fun x => {
          sendBuffer := y.wentOut x ++ (Function.update y.server.tcpSocket socket
            { y.server.tcpSocket socket with rcvBuffer := rest } x).sendBuffer
          rcvBuffer := (Function.update y.server.tcpSocket socket
            { y.server.tcpSocket socket with rcvBuffer := rest } x).rcvBuffer } := by
      funext x
      by_cases hx : x = socket
      · subst hx
        simp [unsent]
      · simp [unsent, hx]
    exact congrArg (fun sockets => Except.ok (LiveServer.mk s sockets
      (y.server.handed ++ newlyPending y.server.orderServer s) y.server.published
      (y.server.copies ++ copy.toList))) hsockets

theorem unsent_step {e : ServerEvent} (h : y.server.step sort e = .ok l') :
    y.unsent.step sort e = .ok ({ y with server := l' } : ServerStreams).unsent := by
  cases e with
  | read socket rxTime bytes => exact unsent_read h
  | finished =>
    obtain rfl := Except.ok.inj h
    rfl
  | respond r =>
    obtain ⟨⟨s, sends⟩, hsend, h⟩ := bind_eq_ok.1 h
    obtain rfl := Except.ok.inj h
    refine bind_eq_ok.2 ⟨(s, sends), hsend, ?_⟩
    have hsockets : LiveServer.sendTo y.unsent.tcpSocket sends = fun x => {
        sendBuffer := y.wentOut x ++ (LiveServer.sendTo y.server.tcpSocket sends x).sendBuffer
        rcvBuffer := (LiveServer.sendTo y.server.tcpSocket sends x).rcvBuffer } := by
      funext x
      rw [LiveServer.sendTo_apply, LiveServer.sendTo_apply, unsent, List.append_assoc]
    exact congrArg (fun sockets => Except.ok (LiveServer.mk s sockets y.server.handed
      y.server.published y.server.copies)) hsockets

/-! ## What the kernel takes -/

/-- A buffer that is taken at once is taken whole. -/
theorem accepted_sendLoopAfter {s : TCPSocket} {kernel : Kernel}
    (hk : ∀ n, 0 < n → kernel.answer 0 n = .accepted n) (hfits : s.sendBuffer.length ≤ tcpBufferSize)
    {n : Nat} (hdone : (s.sendLoopAfter kernel n).Done) :
    (s.sendLoopAfter kernel n).accepted = s.sendBuffer := by
  have htakes : TakesAll kernel s.sendBuffer 0 0 := by
    rcases Nat.eq_zero_or_pos s.sendBuffer.length with hb | hb
    · rw [List.eq_nil_of_length_eq_zero hb]
      exact .done 0
    · exact takesAll_of_whole (hk _ hb)
  have hleft : s.sendLoop.nSend = s.sendBuffer.length - (0 : Nat) := by
    rw [TCPSocket.sendLoop]
    dsimp only
    omega
  obtain ⟨m, hdone', hall⟩ := SendLoop.done_of_takesAll htakes (Nat.zero_le _) (l := s.sendLoop) rfl
    hleft rfl
  exact (congrArg SendLoop.accepted (SendLoop.iterate_unique hdone hdone')).trans hall

/-- What waits in the buffer of a connection. -/
def waiting (y : ServerStreams) (socket : Socket) : List UInt8 :=
  (y.server.tcpSocket socket).sendBuffer

/-- **`sendAndRecv` of a connection**: it empties the buffer and reads, and the server that does not
send has read as well. -/
theorem unsent_sendAndRecv {r : ServerRound} (hk : r.TakesAtOnce) {socket : Socket}
    (hfits : (y.waiting socket).length ≤ tcpBufferSize)
    (hn : r.sendAndRecvStreams y (.connection socket) = .ok y') :
    y.unsent.read socket (r.received socket).1 (r.received socket).2 = .ok y'.unsent ∧
    (∀ x, y'.waiting x = if x = socket then [] else y.waiting x) ∧
    ∀ x, y'.cameIn x = y.cameIn x ++ ServerEvent.bytesOn x
      (.read socket (r.received socket).1 (r.received socket).2) := by
  obtain ⟨server, hserver, hn⟩ := bind_eq_ok.1 hn
  obtain rfl := Except.ok.inj hn
  obtain ⟨l, hread, hserver⟩ := bind_eq_ok.1 hserver
  dsimp only at hserver
  split at hserver
  · next hdone =>
    obtain rfl := Except.ok.inj hserver
    obtain ⟨rest, hsocket⟩ := LiveServer.tcpSocket_read hread socket
    rw [hsocket] at hdone
    have htaken := accepted_sendLoopAfter (hk socket) hfits hdone
    refine ⟨?_, fun x => ?_, fun x => ?_⟩
    · refine (unsent_read hread).trans (congrArg (fun sockets => Except.ok (LiveServer.mk
        l.orderServer sockets l.handed l.published l.copies)) (funext fun x => ?_))
      by_cases hx : x = socket
      · subst hx
        simp [htaken, hsocket, TCPSocket.sent]
      · simp [hx]
    · by_cases hx : x = socket
      · subst hx
        simp [waiting, TCPSocket.sent]
      · obtain ⟨rest', hx'⟩ := LiveServer.tcpSocket_read hread x
        simp [waiting, hx, hx']
    · by_cases hx : x = socket
      · subst hx
        simp [ServerEvent.bytesOn]
      · simp [ServerEvent.bytesOn, hx, Ne.symm hx]
  · exact absurd hserver (by simp)

/-! ## The ledger of the record -/

/-- **The record has a ledger**: what the server that does not send enters for these events. -/
structure Records (sort : List RecvTimeClientRequest → List RecvTimeClientRequest)
    (events : List ServerEvent) (y : ServerStreams) (ledger : List LedgerEntry) : Prop where
  run : ({} : LedgerRun).run sort events = .ok ⟨y.unsent, ledger⟩
  cameIn : ∀ socket, events.flatMap (ServerEvent.bytesOn socket) = y.cameIn socket

variable {events : List ServerEvent} {ledger : List LedgerEntry} {r : ServerRound}

theorem records_start : Records sort [] {} [] := ⟨rfl, fun _ => rfl⟩

theorem Records.event (h : Records sort events y ledger) {e : ServerEvent}
    (hn : y.unsent.step sort e = .ok y'.unsent)
    (hcame : ∀ x, y'.cameIn x = y.cameIn x ++ e.bytesOn x) :
    Records sort (events ++ [e]) y' (ledger ++ y.unsent.entries e) where
  run := by
    have hrun := h.run
    rw [LedgerRun.run] at hrun ⊢
    rw [List.foldlM_append, hrun, ok_bind, List.foldlM_cons, LedgerRun.step, hn]
    rfl
  cameIn := fun x => by
    rw [List.flatMap_append, List.flatMap_singleton, h.cameIn, hcame]

/-- What `sendAndRecv` of some sockets leaves. -/
structure Served (sockets : List SocketPtr) (y y' : ServerStreams) : Prop where
  emptied : ∀ x, .connection x ∈ sockets → y'.waiting x = []
  waiting : ∀ x, .connection x ∉ sockets → y'.waiting x = y.waiting x
  cameIn : ∀ x, .connection x ∉ sockets → y'.cameIn x = y.cameIn x

/-- **`sendAndRecv` of one socket after the other.** -/
theorem Records.sockets (hk : r.TakesAtOnce) (sockets : List SocketPtr)
    (h : Records sort events y ledger)
    (hfits : ∀ x, .connection x ∈ sockets → (y.waiting x).length ≤ tcpBufferSize)
    (hn : sockets.foldlM r.sendAndRecvStreams y = .ok y') :
    ∃ events' ledger', Records sort events' y' ledger' ∧
      events'.flatMap ServerEvent.responses = events.flatMap ServerEvent.responses ∧
      Served sockets y y' := by
  induction sockets generalizing y events ledger with
  | nil =>
    obtain rfl := Except.ok.inj hn
    exact ⟨events, ledger, h, rfl, fun _ hx => absurd hx List.not_mem_nil, fun _ _ => rfl,
      fun _ _ => rfl⟩
  | cons s rest ih =>
    rw [List.foldlM_cons] at hn
    obtain ⟨y₁, hone, htail⟩ := bind_eq_ok.1 hn
    cases s with
    | listener =>
      obtain rfl := Except.ok.inj hone
      obtain ⟨events', ledger', h', hresponses, hserved⟩ :=
        ih h (fun x hx => hfits x (List.mem_cons_of_mem _ hx)) htail
      exact ⟨events', ledger', h', hresponses, by simpa using hserved.emptied,
        by simpa using hserved.waiting, by simpa using hserved.cameIn⟩
    | connection socket =>
      obtain ⟨hstep, hwaiting, hcame⟩ :=
        unsent_sendAndRecv hk (hfits socket List.mem_cons_self) hone
      have hrest : ∀ x, .connection x ∈ rest → (y₁.waiting x).length ≤ tcpBufferSize := by
        intro x hx
        rw [hwaiting]
        split
        · exact Nat.zero_le _
        · exact hfits x (List.mem_cons_of_mem _ hx)
      obtain ⟨events', ledger', h', hresponses, hserved⟩ :=
        ih (h.event (e := .read socket _ _) hstep hcame) hrest htail
      refine ⟨events', ledger', h', ?_, fun x hx => ?_, fun x hx => ?_, fun x hx => ?_⟩
      · rw [hresponses, List.flatMap_append, List.flatMap_singleton, ServerEvent.responses,
          List.append_nil]
      · by_cases hmem : .connection x ∈ rest
        · exact hserved.emptied x hmem
        · rw [hserved.waiting x hmem, hwaiting, if_pos]
          exact SocketPtr.connection.inj ((List.mem_cons.1 hx).resolve_right hmem)
      · obtain ⟨hne, hmem⟩ := not_or.1 (fun hm => hx (List.mem_cons.2 hm))
        rw [hserved.waiting x hmem, hwaiting, if_neg fun heq => hne (congrArg _ heq)]
      · obtain ⟨hne, hmem⟩ := not_or.1 (fun hm => hx (List.mem_cons.2 hm))
        rw [hserved.cameIn x hmem, hcame, ServerEvent.bytesOn,
          if_neg fun heq => hne (congrArg _ heq.symm), List.append_nil]

theorem Records.recvFinished (h : Records sort events y ledger) {t : TCPServer}
    (hn : ServerLoop.recvFinished sort t y.server r = .ok l) :
    ∃ events' ledger', Records sort events' ({ y with server := l } : ServerStreams) ledger' ∧
      events'.flatMap ServerEvent.responses = events.flatMap ServerEvent.responses ∧
      ∀ x, (l.tcpSocket x).sendBuffer = y.waiting x := by
  rw [ServerLoop.recvFinished] at hn
  split at hn
  · refine ⟨_, _, h.event (unsent_step hn) fun _ => (List.append_nil _).symm, ?_, ?_⟩
    · rw [List.flatMap_append, List.flatMap_singleton, ServerEvent.responses, List.append_nil]
    · obtain rfl := Except.ok.inj hn
      exact fun _ => rfl
  · obtain rfl := Except.ok.inj hn
    exact ⟨events, ledger, h, rfl, fun _ => rfl⟩

/-- The responses are entered behind the rest. -/
theorem Records.respondAll (responses : List MEClientResponse) (h : Records sort events y ledger)
    (hn : ServerLoop.respondAll sort y.server responses = .ok l) :
    ∃ recent, Records sort (events ++ responses.map .respond)
      ({ y with server := l } : ServerStreams) (ledger ++ recent) := by
  induction responses generalizing y events ledger with
  | nil =>
    obtain rfl := Except.ok.inj hn
    exact ⟨[], by simpa using h⟩
  | cons response rest ih =>
    rw [ServerLoop.respondAll, List.foldlM_cons] at hn
    obtain ⟨l₁, hone, hn⟩ := bind_eq_ok.1 hn
    obtain ⟨recent, hrecent⟩ := ih (y := { y with server := l₁ })
      (h.event (unsent_step (ServerLoop.step_of_respond hone)) fun _ => (List.append_nil _).symm) hn
    rw [List.append_assoc, List.append_assoc] at hrecent
    exact ⟨_, hrecent⟩

end ServerStreams

/-! ## Rounds -/

/-- Who owns a client has sent a request. -/
theorem Ledger.requestOn_ne_nil_of_owner {ledger : List LedgerEntry} {c : ClientId}
    {socket : Socket} (h : Ledger.owner ledger c = some socket) :
    ledger.flatMap (LedgerEntry.requestOn socket) ≠ [] := by
  rw [Ledger.owner, firstSender, Option.map_eq_some_iff] at h
  obtain ⟨p, hfind, rfl⟩ := h
  obtain ⟨e, he, hp⟩ := List.mem_flatMap.1 (List.mem_of_find?_eq_some hfind)
  cases e with
  | request a handedOver =>
    obtain rfl := List.mem_singleton.1 hp
    have hrequest : a.request ∈ LedgerEntry.requestOn a.socket (.request a handedOver) := by
      rw [LedgerEntry.requestOn, if_pos rfl]
      exact List.mem_singleton_self _
    exact List.ne_nil_of_mem (List.mem_flatMap.2 ⟨_, he, hrequest⟩)
  | response x n r => exact absurd hp List.not_mem_nil

/-- Nothing goes to a connection without requests. -/
theorem Ledger.bytesTo_eq_nil {ledger : List LedgerEntry} (h : Ledger.Lawful ledger)
    {socket : Socket} (hnone : ledger.flatMap (LedgerEntry.requestOn socket) = []) :
    ledger.flatMap (LedgerEntry.bytesTo socket) = [] := by
  induction ledger using List.reverseRecOn with
  | nil => rfl
  | append_singleton ledger e ih =>
    obtain ⟨hlawful, hfollows⟩ := throughout_concat.1 h
    rw [List.flatMap_append, List.append_eq_nil_iff] at hnone
    rw [List.flatMap_append, List.flatMap_singleton, ih hlawful hnone.1, List.nil_append]
    cases e with
    | request a handedOver => rfl
    | response x n r =>
      rw [LedgerEntry.bytesTo, if_neg]
      rintro rfl
      exact Ledger.requestOn_ne_nil_of_owner hfollows.1 hnone.1

/-- A response takes sixteen bytes at most. -/
theorem length_bytesTo_le (socket : Socket) (ledger : List LedgerEntry) :
    (ledger.flatMap (LedgerEntry.bytesTo socket)).length ≤
      16 * (ledger.flatMap LedgerEntry.responded).length := by
  induction ledger with
  | nil => exact Nat.zero_le _
  | cons e ledger ih =>
    rw [List.flatMap_cons, List.flatMap_cons, List.length_append, List.length_append]
    have hone : (e.bytesTo socket).length ≤ 16 * e.responded.length := by
      cases e with
      | request a handedOver => exact Nat.zero_le _
      | response x n r =>
        have hnumber : (u64.encode n).length = 8 := u64.length_encode n
        rw [LedgerEntry.bytesTo]
        split
        · rw [List.length_append, List.length_take, hnumber, OrderServer.sizeofPointer]
          exact Nat.add_le_add_left (Nat.min_le_left _ _) _
        · exact Nat.zero_le _
    omega

namespace StreamedLoop

open ServerStreams

variable {sort : List RecvTimeClientRequest → List RecvTimeClientRequest} {x x' : StreamedLoop}
  {r : ServerRound} {events : List ServerEvent}

/-- **What is on the connections**, when these responses were sent before the last round and these
in it: a ledger of lawful sessions, which ends with the entries of the last round. -/
structure Delivered (responses last : List MEClientResponse) (x : StreamedLoop)
    (past recent : List LedgerEntry) : Prop where
  lawful : Ledger.Lawful (past ++ recent)
  /-- On every connection the requests are those in the bytes that came in. -/
  requests : ∀ socket, omClientRequestCodec.chunks (x.streams.cameIn socket) =
    ((past ++ recent).flatMap (LedgerEntry.requestOn socket),
      (x.streams.server.tcpSocket socket).rcvBuffer)
  /-- The matching engine gets each request that was handed over once. -/
  published : (x.streams.server.published ++
    x.streams.server.orderServer.fifoSequencer.pendingClientRequests.map (·.request)).Perm
      (((past ++ recent).flatMap LedgerEntry.handed).map fun a => a.request.meClientRequest)
  responses : past.flatMap LedgerEntry.responded = responses
  last : recent.flatMap LedgerEntry.responded = last
  /-- What went out and what waits are the responses on the connection, in their order. -/
  whole : ∀ socket, x.streams.wentOut socket ++ x.streams.waiting socket =
    (past ++ recent).flatMap (LedgerEntry.bytesTo socket)
  /-- Where a connection is served nothing waits for longer than a round. -/
  prompt : ∀ socket, .connection socket ∈ x.tcpServer.recvSockets →
    x.streams.wentOut socket = past.flatMap (LedgerEntry.bytesTo socket)

/-- The invariant between two rounds. -/
structure Kept (sort : List RecvTimeClientRequest → List RecvTimeClientRequest)
    (events : List ServerEvent) (x : StreamedLoop) : Prop where
  records : ∃ ledger, Records sort events x.streams ledger
  serves : ∃ gone, Serves gone x.tcpServer
  /-- Nothing has come in on connections that do not exist yet. -/
  unborn : ∀ socket, x.tcpServer.created ≤ socket → x.streams.cameIn socket = []
  fits : ∀ socket, .connection socket ∈ x.tcpServer.recvSockets →
    (x.streams.waiting socket).length ≤ tcpBufferSize

theorem kept_start : Kept sort [] {} where
  records := ⟨[], records_start⟩
  serves := ⟨[], serves_listen⟩
  unborn := fun _ _ => rfl
  fits := fun _ hx => absurd hx List.not_mem_nil

/-- The account of a record. -/
theorem sound_of_records (hs : Sorts RecvTimeClientRequest.time sort) {y : ServerStreams}
    {ledger : List LedgerEntry} (h : Records sort events y ledger) :
    (⟨y.unsent, ledger⟩ : LedgerRun).Sound events := LedgerRun.sound_of_run hs h.run

/-- Nothing waits for a connection that does not exist yet. -/
theorem Kept.waiting_unborn (hs : Sorts RecvTimeClientRequest.time sort) (h : Kept sort events x)
    {socket : Socket} (hsocket : x.tcpServer.created ≤ socket) :
    x.streams.waiting socket = [] := by
  obtain ⟨ledger, hrecords⟩ := h.records
  have hsound := sound_of_records hs hrecords
  have hrequests := hsound.requests socket
  rw [hrecords.cameIn, h.unborn socket hsocket] at hrequests
  have hbytes := Ledger.bytesTo_eq_nil hsound.lawful (Prod.mk.inj hrequests).1.symm
  have hsent := hsound.sent socket
  rw [hbytes] at hsent
  exact (List.append_eq_nil_iff.1 hsent).2

/-- What waits fits the buffer when it is sent. -/
theorem Kept.fits_poll (hs : Sorts RecvTimeClientRequest.time sort) (h : Kept sort events x)
    (ha : x.loop.Answered r) {t : TCPServer} (hpoll : x.tcpServer.poll r.poll = .ok t)
    (socket : Socket) (hmem : .connection socket ∈ t.recvSockets) :
    (x.streams.waiting socket).length ≤ tcpBufferSize := by
  obtain ⟨gone, hserves⟩ := h.serves
  by_cases hold : socket < x.tcpServer.created
  · refine h.fits socket ?_
    rw [(hserves.poll ha hpoll).recvSockets, mem_without] at hmem
    rw [hserves.recvSockets, mem_without, connection_mem]
    exact ⟨hold, fun hg => hmem.2 (hserves.gone.subset hg)⟩
  · rw [h.waiting_unborn hs (Nat.le_of_not_lt hold)]
    exact Nat.zero_le _

/-- **One round.** -/
theorem Kept.round (hs : Sorts RecvTimeClientRequest.time sort) (h : Kept sort events x)
    (ha : x.loop.Answered r) (hk : r.TakesAtOnce) (hr : 16 * r.responses.length ≤ tcpBufferSize)
    (hn : x.round sort r = .ok x') :
    ∃ events' past recent, Kept sort events' x' ∧ events'.flatMap ServerEvent.responses =
        events.flatMap ServerEvent.responses ++ r.responses ∧
      Delivered (events.flatMap ServerEvent.responses) r.responses x' past recent := by
  obtain ⟨t, hpoll, hn⟩ := bind_eq_ok.1 hn
  obtain ⟨y₁, hrecv, hn⟩ := bind_eq_ok.1 hn
  obtain ⟨l₂, hfinished, hn⟩ := bind_eq_ok.1 hn
  obtain ⟨y₃, hsend, hn⟩ := bind_eq_ok.1 hn
  obtain ⟨l₄, hrespond, hn⟩ := bind_eq_ok.1 hn
  obtain rfl := Except.ok.inj hn
  obtain ⟨ledger, hrecords⟩ := h.records
  obtain ⟨gone, hserves⟩ := h.serves
  have hserves' := hserves.poll ha hpoll
  have hcreated := created_poll hpoll
  obtain ⟨events₁, ledger₁, hrecords₁, hresponses₁, hserved⟩ :=
    hrecords.sockets hk t.recvSockets (h.fits_poll hs ha hpoll) hrecv
  obtain ⟨events₂, past, hrecords₂, hresponses₂, hwaiting₂⟩ := hrecords₁.recvFinished hfinished
  rw [hserves'.sendSockets] at hsend
  obtain rfl := Except.ok.inj hsend
  obtain ⟨recent, hrecords₄⟩ := hrecords₂.respondAll r.responses hrespond
  have hpast := sound_of_records hs hrecords₂
  have hall := sound_of_records hs hrecords₄
  have hevents : events₂.flatMap ServerEvent.responses = events.flatMap ServerEvent.responses :=
    hresponses₂.trans hresponses₁
  have hresponded : (r.responses.map ServerEvent.respond).flatMap ServerEvent.responses =
      r.responses := by
    rw [List.flatMap_map]
    exact List.flatMap_singleton' _
  have hrecent : recent.flatMap LedgerEntry.responded = r.responses := by
    have hboth := hall.responses
    rw [List.flatMap_append, List.flatMap_append, hpast.responses, hresponded] at hboth
    exact List.append_cancel_left hboth
  -- behind the reads nothing waits on the connections that are served
  have hwentOut : ∀ socket, .connection socket ∈ t.recvSockets →
      y₁.wentOut socket = past.flatMap (LedgerEntry.bytesTo socket) := by
    intro socket hmem
    have hsent := hpast.sent socket
    have hempty := (hwaiting₂ socket).trans (hserved.emptied socket hmem)
    change y₁.wentOut socket ++ (l₂.tcpSocket socket).sendBuffer = _ at hsent
    rwa [hempty, List.append_nil] at hsent
  have hwaits : ∀ socket, .connection socket ∈ t.recvSockets →
      (l₄.tcpSocket socket).sendBuffer = recent.flatMap (LedgerEntry.bytesTo socket) := by
    intro socket hmem
    have hsent := hall.sent socket
    change y₁.wentOut socket ++ (l₄.tcpSocket socket).sendBuffer = _ at hsent
    rw [List.flatMap_append, hwentOut socket hmem] at hsent
    exact List.append_cancel_left hsent
  refine ⟨_, past, recent, ⟨⟨_, hrecords₄⟩, ⟨_, hserves'⟩, fun socket hsocket => ?_,
    fun socket hmem => ?_⟩, ?_, ⟨hall.lawful, fun socket => ?_, hall.published, ?_, hrecent,
    hall.sent, hwentOut⟩⟩
  · have hmem : .connection socket ∉ t.recvSockets := fun hmem => by
      rw [hserves'.recvSockets, mem_without, connection_mem] at hmem
      exact absurd hmem.1 (Nat.not_lt_of_le hsocket)
    exact (hserved.cameIn socket hmem).trans (h.unborn socket (hcreated.trans hsocket))
  · have hlen := length_bytesTo_le socket recent
    rw [hrecent] at hlen
    rw [waiting, hwaits socket hmem]
    omega
  · rw [List.flatMap_append, hevents, hresponded]
  · rw [← hrecords₄.cameIn]
    exact hall.requests socket
  · rw [hpast.responses, hevents]

/-! ## The record changes nothing -/

theorem server_sendAndRecvStreams (r : ServerRound) (y : ServerStreams) (s : SocketPtr) :
    (r.sendAndRecvStreams y s).map ServerStreams.server = r.sendAndRecv y.server s := by
  rw [ServerRound.sendAndRecvStreams]
  cases r.sendAndRecv y.server s with
  | error e => rfl
  | ok l => cases s <;> rfl

theorem server_foldlM (r : ServerRound) (sockets : List SocketPtr) (y : ServerStreams) :
    (sockets.foldlM r.sendAndRecvStreams y).map ServerStreams.server =
      sockets.foldlM r.sendAndRecv y.server := by
  induction sockets generalizing y with
  | nil => rfl
  | cons s rest ih =>
    rw [List.foldlM_cons, List.foldlM_cons, ← server_sendAndRecvStreams]
    cases r.sendAndRecvStreams y s with
    | error e => rfl
    | ok y₁ => exact ih y₁

theorem loop_round (x : StreamedLoop) (r : ServerRound) :
    (x.round sort r).map loop = x.loop.round sort r := by
  rw [round, ServerLoop.round, loop]
  dsimp only
  cases x.tcpServer.poll r.poll with
  | error e => rfl
  | ok t =>
    rw [ok_bind, ok_bind, ServerLoop.sendAndRecv, ← server_foldlM]
    cases t.recvSockets.foldlM r.sendAndRecvStreams x.streams with
    | error e => rfl
    | ok y =>
      change Except.map loop (ServerLoop.recvFinished sort t y.server r >>= _) =
        ((ServerLoop.recvFinished sort t y.server r >>= _) >>= _)
      cases ServerLoop.recvFinished sort t y.server r with
      | error e => rfl
      | ok l =>
        rw [ok_bind, ok_bind]
        have hsend := server_foldlM r t.sendSockets { y with server := l }
        dsimp only at hsend
        rw [← hsend]
        cases t.sendSockets.foldlM r.sendAndRecvStreams { y with server := l } with
        | error e => rfl
        | ok y' =>
          change Except.map loop (ServerLoop.respondAll sort y'.server r.responses >>= _) =
            (ServerLoop.respondAll sort y'.server r.responses >>= _)
          cases ServerLoop.respondAll sort y'.server r.responses <;> rfl

theorem loop_run (rounds : List ServerRound) (x : StreamedLoop) :
    (x.run sort rounds).map loop = x.loop.run sort rounds := by
  induction rounds generalizing x with
  | nil => rfl
  | cons r rest ih =>
    rw [run, ServerLoop.run, List.foldlM_cons, List.foldlM_cons, ← loop_round]
    cases x.round sort r with
    | error e => rfl
    | ok x₁ => exact ih x₁

/-! ## Runs -/

/-- Round after round. -/
theorem Kept.run (hs : Sorts RecvTimeClientRequest.time sort) (rounds : List ServerRound)
    (h : Kept sort events x)
    (ha : Run.Along (ServerLoop.Next sort) ServerLoop.Answered x.loop rounds)
    (hk : ∀ r ∈ rounds, r.TakesAtOnce)
    (hr : ∀ r ∈ rounds, 16 * r.responses.length ≤ tcpBufferSize)
    (hrun : x.run sort rounds = .ok x') :
    ∃ events', Kept sort events' x' ∧ events'.flatMap ServerEvent.responses =
      events.flatMap ServerEvent.responses ++ rounds.flatMap (·.responses) := by
  induction rounds generalizing x events with
  | nil =>
    obtain rfl := Except.ok.inj hrun
    exact ⟨events, h, (List.append_nil _).symm⟩
  | cons r rest ih =>
    rw [StreamedLoop.run, List.foldlM_cons] at hrun
    obtain ⟨x₁, hround, hrest⟩ := bind_eq_ok.1 hrun
    have hnext : ServerLoop.Next sort x.loop r x₁.loop := by
      rw [ServerLoop.Next, ← loop_round, hround]
      rfl
    obtain ⟨events₁, past, recent, h₁, hresponses, -⟩ := h.round hs ha.1
      (hk r List.mem_cons_self) (hr r List.mem_cons_self) hround
    obtain ⟨events', h', hall⟩ := ih h₁ (ha.2 _ hnext)
      (fun q hq => hk q (List.mem_cons_of_mem _ hq)) (fun q hq => hr q (List.mem_cons_of_mem _ hq))
      hrest
    exact ⟨events', h', by rw [hall, hresponses, List.flatMap_cons, List.append_assoc]⟩

/-- **The order server on its connections.**  Whatever connections come and go, and whatever comes
in on them in whatever pieces: if the kernel takes a send buffer at once, which the responses of a
round do not fill, what came in and what went out is the ledger of lawful sessions, and only the
responses of the last round wait on a connection that is served.  The loop gets no further than the
buffer of a broken socket takes. -/
theorem delivered_of_run (hs : Sorts RecvTimeClientRequest.time sort) {rounds : List ServerRound}
    {last : ServerRound} {z : ServerLoop}
    (ha : Run.Along (ServerLoop.Next sort) ServerLoop.Answered {} (rounds ++ [last]))
    (hk : ∀ r ∈ rounds ++ [last], r.TakesAtOnce)
    (hr : ∀ r ∈ rounds ++ [last], 16 * r.responses.length ≤ tcpBufferSize)
    (hrun : ({} : ServerLoop).run sort (rounds ++ [last]) = .ok z) :
    ∃ x past recent, ({} : StreamedLoop).run sort (rounds ++ [last]) = .ok x ∧ x.loop = z ∧
      Delivered (rounds.flatMap (·.responses)) last.responses x past recent := by
  obtain ⟨x, hx, hz⟩ := map_eq_ok.1 ((loop_run (rounds ++ [last]) {}).trans hrun)
  have hsplit := hx
  rw [run, List.foldlM_append] at hsplit
  obtain ⟨x₁, hfirst, hlast⟩ := bind_eq_ok.1 hsplit
  obtain ⟨x₂, hround, hlast⟩ := bind_eq_ok.1 hlast
  obtain rfl := Except.ok.inj hlast
  have htake := ha.take rounds.length
  rw [List.take_left] at htake
  obtain ⟨events, hkept, hresponses⟩ := kept_start.run hs rounds htake
    (fun r hmem => hk r (List.mem_append_left _ hmem))
    (fun r hmem => hr r (List.mem_append_left _ hmem)) hfirst
  have hloop : ({} : ServerLoop).run sort rounds = .ok x₁.loop :=
    (loop_run rounds {}).symm.trans (congrArg (Except.map loop) hfirst)
  obtain ⟨_, past, recent, -, -, hdelivered⟩ := hkept.round hs
    (ha.of_foldlM (fun _ _ _ hn => hn) hloop) (hk last (List.mem_append_right _ List.mem_cons_self))
    (hr last (List.mem_append_right _ List.mem_cons_self)) hround
  rw [hresponses] at hdelivered
  exact ⟨x₂, past, recent, hx, hz, hdelivered⟩

/-- The first response of the session. -/
def rejected : MEClientResponse := MEOrderBook.cancelRejectedResponse EngineThreads.unknownCancel

/-- Client 1 connects, sends a request and is answered. -/
def answeredRounds : List ServerRound :=
  [{ kernel := fun _ => Output.greedy
     poll := { events := [{ socket := .listener, epollIn := true }]
               accepted := [⟨7, true, true⟩] } },
   { kernel := fun _ => Output.greedy
     poll := { events := [{ socket := .connection 0, epollIn := true }] }
     received := fun _ => (3, omClientRequestCodec.encode ⟨1, EngineThreads.unknownCancel⟩)
     responses := [rejected] }]

/-- The answer goes out, and another one waits. -/
def flushingRound : ServerRound where
  kernel := fun _ => Output.greedy
  calls := fun _ => 1
  responses := [rejected]

theorem delivered_of_run_answered : ∃ z : ServerLoop,
    ({} : ServerLoop).run (stableSort RecvTimeClientRequest.time)
      (answeredRounds ++ [flushingRound]) = .ok z ∧
    (z.server.tcpSocket 0).sendBuffer.length = 16 ∧
    z.tcpServer.recvSockets = [.connection 0] ∧
    ∃ x past recent, ({} : StreamedLoop).run (stableSort RecvTimeClientRequest.time)
        (answeredRounds ++ [flushingRound]) = .ok x ∧ x.loop = z ∧
      Delivered [rejected] [rejected] x past recent := by
  have hanswers : Run.Along (ServerLoop.Next (stableSort RecvTimeClientRequest.time))
      ServerLoop.Answered {} (answeredRounds ++ [flushingRound]) := by
    refine ServerLoop.along_answered ⟨⟨by decide, by decide, by decide⟩, fun t₁ h₁ => ?_⟩
    obtain rfl := Except.ok.inj h₁
    refine ⟨⟨by decide, by decide, by decide⟩, fun t₂ h₂ => ?_⟩
    obtain rfl := Except.ok.inj h₂
    exact ⟨⟨by decide, by decide, by decide⟩, fun _ _ => trivial⟩
  have hend : (({} : ServerLoop).run (stableSort RecvTimeClientRequest.time)
      (answeredRounds ++ [flushingRound])).map (fun z =>
        ((z.server.tcpSocket 0).sendBuffer.length, z.tcpServer.recvSockets)) =
      .ok (16, [.connection 0]) := by
    decide +kernel
  obtain ⟨z, hrun, hz⟩ := map_eq_ok.1 hend
  obtain ⟨hwaits, hserved⟩ := Prod.mk.inj hz
  have hall : ∀ r ∈ answeredRounds ++ [flushingRound],
      r.kernel = (fun _ => Output.greedy) ∧ r.responses.length ≤ 1 := by
    simp [answeredRounds, flushingRound]
  refine ⟨z, hrun, hwaits, hserved, delivered_of_run sorts_stableSort hanswers
    (fun r hr socket n _ => by rw [(hall r hr).1]; rfl) (fun r hr => ?_) hrun⟩
  have hone := (hall r hr).2
  have hsize : 16 ≤ tcpBufferSize := by decide
  omega

end StreamedLoop
end Exchange
end TradingEcosystem
