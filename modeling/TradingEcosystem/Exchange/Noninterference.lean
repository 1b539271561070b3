import TradingEcosystem.Exchange.LiveServer
import TradingEcosystem.Lib.Along

/-!
# Spoofed requests do not interfere

Two runs of the order server are compared: in the second one some messages never arrive that in the
first one name a client of another socket.  Messages have fixed size, so the `k`-th message of a
socket is a range of positions in the bytes it receives, and leaving messages out takes these bytes
out of the reads (`keepBytes`), wherever the reads cut the stream.

The two runs stay `Alike`: same server, same requests handed over, and on every socket the second
one has of an unfinished message what the first one has, or nothing if it is left out.
-/

set_option autoImplicit false

namespace TradingEcosystem
namespace Exchange

open Codec Run

/-- The message names a client that is bound to another socket. -/
structure Foreign (s : OrderServer) (socket : Socket) (r : OMClientRequest) : Prop where
  inRange : r.meClientRequest.clientId.toNat < meMaxNumClients
  bound : s.clientIdSocket r.meClientRequest.clientId ≠ none
  other : s.clientIdSocket r.meClientRequest.clientId ≠ some socket

/-- The bytes of a socket from position `pos` on, without the messages that are left out. -/
def keepBytes (leaveOut : Nat → Bool) : Nat → List UInt8 → List UInt8
  | _, [] => []
  | pos, b :: bytes =>
    if leaveOut (pos / omClientRequestCodec.size) then keepBytes leaveOut (pos + 1) bytes
    else b :: keepBytes leaveOut (pos + 1) bytes

namespace ServerEvent

/-- The event of the second run; `pos` counts the bytes the sockets received before. -/
def without (leaveOut : Socket → Nat → Bool) (pos : Socket → Nat) : ServerEvent → ServerEvent
  | .read socket rxTime bytes =>
    .read socket rxTime (keepBytes (leaveOut socket) (pos socket) bytes)
  | .finished => .finished
  | .respond r => .respond r

/-- The bytes received behind the event. -/
def advance (pos : Socket → Nat) : ServerEvent → Socket → Nat
  | .read socket _ bytes => Function.update pos socket (pos socket + bytes.length)
  | .finished => pos
  | .respond _ => pos

end ServerEvent

/-- The events of the second run. -/
def withoutAll (leaveOut : Socket → Nat → Bool) : (Socket → Nat) → List ServerEvent →
    List ServerEvent
  | _, [] => []
  | pos, e :: events => e.without leaveOut pos :: withoutAll leaveOut (e.advance pos) events

/-- The messages of a read that are left out are foreign when the server comes to them. -/
def ForeignIn (leaveOut : Nat → Bool) (socket : Socket) (rxTime : Nanos) (s : OrderServer)
    (first : Nat) (requests : List OMClientRequest) : Prop :=
  Along (fun s (x : OMClientRequest × Nat) s' => s.handleRequest socket rxTime x.1 = .ok s')
    (fun s x => leaveOut x.2 = true → Foreign s socket x.1) s (requests.zipIdx first)

/-- The first run, with the bytes each socket has received. -/
abbrev Counted := LiveServer × (Socket → Nat)

def Counted.Next (sort : List RecvTimeClientRequest → List RecvTimeClientRequest) (x : Counted)
    (e : ServerEvent) (x' : Counted) : Prop := x.1.step sort e = .ok x'.1 ∧ x'.2 = e.advance x.2

/-- Everything that is left out of a read is foreign. -/
def Counted.LeavesOutForeign (leaveOut : Socket → Nat → Bool) (x : Counted) : ServerEvent → Prop
  | .read socket rxTime bytes =>
    ForeignIn (leaveOut socket) socket rxTime x.1.orderServer
      (x.2 socket / omClientRequestCodec.size)
      (omClientRequestCodec.chunks ((x.1.tcpSocket socket).rcvBuffer ++ bytes)).1
  | .finished => True
  | .respond _ => True

/-! ## Bytes -/

section Bytes

variable {leaveOut : Nat → Bool}

theorem keepBytes_append (pos : Nat) (as bs : List UInt8) : keepBytes leaveOut pos (as ++ bs) =
    keepBytes leaveOut pos as ++ keepBytes leaveOut (pos + as.length) bs := by
  induction as generalizing pos with
  | nil => rfl
  | cons a as ih =>
    have hpos : pos + (as.length + 1) = pos + 1 + as.length := by omega
    rw [List.cons_append, keepBytes, keepBytes, ih, List.length_cons, hpos]
    split <;> rfl

/-- Bytes of one message stay or go together. -/
theorem keepBytes_message (leaveOut : Nat → Bool) (k : Nat) (bytes : List UInt8) (i : Nat)
    (h : i + bytes.length ≤ omClientRequestCodec.size) :
    keepBytes leaveOut (omClientRequestCodec.size * k + i) bytes =
      if leaveOut k then [] else bytes := by
  induction bytes generalizing i with
  | nil => exact (ite_self _).symm
  | cons b bytes ih =>
    rw [List.length_cons] at h
    have hk : (omClientRequestCodec.size * k + i) / omClientRequestCodec.size = k := by
      rw [show omClientRequestCodec.size = 38 from rfl] at h ⊢
      omega
    rw [keepBytes, hk, Nat.add_assoc, ih (i + 1) (by omega)]
    split <;> rfl

/-- The requests that are not left out. -/
def keepRequests (leaveOut : Nat → Bool) : Nat → List OMClientRequest → List OMClientRequest
  | _, [] => []
  | k, r :: requests =>
    if leaveOut k then keepRequests leaveOut (k + 1) requests
    else r :: keepRequests leaveOut (k + 1) requests

theorem keepBytes_of_lt (k : Nat) {bytes : List UInt8}
    (h : bytes.length < omClientRequestCodec.size) :
    (keepBytes leaveOut (omClientRequestCodec.size * k) bytes).length <
      omClientRequestCodec.size := by
  have hmessage := keepBytes_message leaveOut k bytes 0 (by omega)
  rw [Nat.add_zero] at hmessage
  rw [hmessage]
  split
  · exact OrderServer.size_pos
  · exact h

/-- Leaving out bytes leaves out requests, and what is left over of the second stream is left over
of the first. -/
theorem chunks_keepBytes (leaveOut : Nat → Bool) (bytes : List UInt8) (k : Nat) :
    omClientRequestCodec.chunks (keepBytes leaveOut (omClientRequestCodec.size * k) bytes) =
      (keepRequests leaveOut k (omClientRequestCodec.chunks bytes).1,
        keepBytes leaveOut
          (omClientRequestCodec.size * (k + (omClientRequestCodec.chunks bytes).1.length))
          (omClientRequestCodec.chunks bytes).2) := by
  have hpos := OrderServer.size_pos
  induction hn : bytes.length using Nat.strongRecOn generalizing bytes k with
  | ind n ih =>
    rcases Nat.lt_or_ge bytes.length omClientRequestCodec.size with hlt | hge
    · rw [chunks_of_lt _ hlt, chunks_of_lt _ (keepBytes_of_lt k hlt)]
      rfl
    · have hblock : (bytes.take omClientRequestCodec.size).length = omClientRequestCodec.size :=
        List.length_take_of_le hge
      have hmessage := keepBytes_message leaveOut k
        (bytes.take omClientRequestCodec.size) 0 (by omega)
      rw [Nat.add_zero] at hmessage
      have hkept : keepBytes leaveOut (omClientRequestCodec.size * k) bytes =
          (if leaveOut k then [] else bytes.take omClientRequestCodec.size) ++
            keepBytes leaveOut (omClientRequestCodec.size * (k + 1))
              (bytes.drop omClientRequestCodec.size) := by
        conv_lhs => rw [← List.take_append_drop omClientRequestCodec.size bytes]
        rw [keepBytes_append, hmessage, hblock, Nat.mul_succ]
      have hcount : k + ((omClientRequestCodec.chunks
          (bytes.drop omClientRequestCodec.size)).1.length + 1) =
            k + 1 + (omClientRequestCodec.chunks
              (bytes.drop omClientRequestCodec.size)).1.length := by
        omega
      have hrest := ih _ (by rw [List.length_drop]; omega) (bytes.drop omClientRequestCodec.size)
        (k + 1) rfl
      rw [hkept, chunks_of_le _ hpos hge, keepRequests, List.length_cons, hcount]
      split
      · exact hrest
      · rw [chunks_append _ hpos hblock, hrest]

/-- **Foreign requests change nothing**, wherever they stand among the others. -/
theorem handleAll_keepRequests (socket : Socket) (rxTime : Nanos) (requests : List OMClientRequest)
    {s : OrderServer} {k : Nat} (h : ForeignIn leaveOut socket rxTime s k requests) :
    s.handleAll socket rxTime (keepRequests leaveOut k requests) =
      s.handleAll socket rxTime requests := by
  induction requests generalizing s k with
  | nil => rfl
  | cons r rest ih =>
    obtain ⟨hforeign, hnext⟩ := h
    rw [keepRequests, OrderServer.handleAll_cons]
    split
    · next hout =>
      have hf := hforeign hout
      have hskip : s.handleRequest socket rxTime r = .ok s :=
        OrderServer.handleRequest_of_foreign hf.inRange hf.bound hf.other
      rw [hskip, ok_bind]
      exact ih (hnext s hskip)
    · rw [OrderServer.handleAll_cons]
      cases hr : s.handleRequest socket rxTime r with
      | error e => rfl
      | ok s' => exact ih (hnext s' hr)

end Bytes

/-! ## Two runs -/

section Runs

variable {leaveOut : Socket → Nat → Bool} {pos : Socket → Nat} {l l' : LiveServer}

/-- The two runs after corresponding events. -/
structure Alike (leaveOut : Socket → Nat → Bool) (pos : Socket → Nat) (l l' : LiveServer) :
    Prop where
  server : l'.orderServer = l.orderServer
  handed : l'.handed = l.handed
  sendBuffer : ∀ x, (l'.tcpSocket x).sendBuffer = (l.tcpSocket x).sendBuffer
  /-- `k` messages of the socket are complete. -/
  rcvBuffer : ∀ x, ∃ k, pos x = omClientRequestCodec.size * k + (l.tcpSocket x).rcvBuffer.length ∧
    (l.tcpSocket x).rcvBuffer.length < omClientRequestCodec.size ∧
    (l'.tcpSocket x).rcvBuffer =
      keepBytes (leaveOut x) (omClientRequestCodec.size * k) (l.tcpSocket x).rcvBuffer

/-- A step of both runs: they end alike or stop with one fault. -/
def SameOutcome (leaveOut : Socket → Nat → Bool) (pos : Socket → Nat) :
    Except Fault LiveServer → Except Fault LiveServer → Prop
  | .ok l, .ok l' => Alike leaveOut pos l l'
  | .error e, .error e' => e = e'
  | _, _ => False

theorem Alike.read (h : Alike leaveOut pos l l') (socket : Socket) (rxTime : Nanos)
    (bytes : List UInt8)
    (hout : Counted.LeavesOutForeign leaveOut (l, pos) (.read socket rxTime bytes)) :
    SameOutcome leaveOut ((ServerEvent.read socket rxTime bytes).advance pos)
      (l.read socket rxTime bytes)
      (l'.read socket rxTime (keepBytes (leaveOut socket) (pos socket) bytes)) := by
  have hsize := OrderServer.size_pos
  obtain ⟨k, hpos, hshort, hbuf⟩ := h.rcvBuffer socket
  have hk : pos socket / omClientRequestCodec.size = k := by
    rw [hpos, Nat.mul_add_div hsize, Nat.div_eq_of_lt hshort, Nat.add_zero]
  have hshort' : (l'.tcpSocket socket).rcvBuffer.length < omClientRequestCodec.size := by
    rw [hbuf]
    exact keepBytes_of_lt k hshort
  have htotal : (l'.tcpSocket socket).rcvBuffer ++
      keepBytes (leaveOut socket) (pos socket) bytes = keepBytes (leaveOut socket)
        (omClientRequestCodec.size * k) ((l.tcpSocket socket).rcvBuffer ++ bytes) := by
    rw [hbuf, hpos, keepBytes_append]
  have hchunks := chunks_keepBytes (leaveOut socket)
    ((l.tcpSocket socket).rcvBuffer ++ bytes) k
  change ForeignIn (leaveOut socket) socket rxTime l.orderServer
    (pos socket / omClientRequestCodec.size) _ at hout
  rw [hk] at hout
  have hlen := omClientRequestCodec.length_chunks hsize ((l.tcpSocket socket).rcvBuffer ++ bytes)
  have hleft := omClientRequestCodec.length_chunks_lt hsize
    ((l.tcpSocket socket).rcvBuffer ++ bytes)
  rw [List.length_append] at hlen
  rw [LiveServer.read_of_short l socket rxTime bytes hshort,
    LiveServer.read_of_short l' socket rxTime _ hshort', htotal]
  dsimp only
  rw [hchunks, h.server, handleAll_keepRequests socket rxTime _ hout]
  cases l.orderServer.handleAll socket rxTime
    (omClientRequestCodec.chunks ((l.tcpSocket socket).rcvBuffer ++ bytes)).1 with
  | error e => exact rfl
  | ok s =>
    refine ⟨rfl, ?_, fun x => ?_, fun x => ?_⟩
    · change l'.handed ++ newlyPending l'.orderServer s = l.handed ++ newlyPending l.orderServer s
      rw [h.handed, h.server]
    · rw [LiveServer.sendBuffer_afterRead, LiveServer.sendBuffer_afterRead, h.sendBuffer]
    · by_cases hx : x = socket
      · subst hx
        refine ⟨k + (omClientRequestCodec.chunks ((l.tcpSocket x).rcvBuffer ++ bytes)).1.length,
          ?_, ?_, ?_⟩
        · rw [LiveServer.rcvBuffer_afterRead_self, ServerEvent.advance, Function.update_self, hpos,
            Nat.mul_add]
          omega
        · rwa [LiveServer.rcvBuffer_afterRead_self]
        · rw [LiveServer.rcvBuffer_afterRead_self, LiveServer.rcvBuffer_afterRead_self, hchunks]
      · rw [LiveServer.rcvBuffer_afterRead_of_ne l hx, LiveServer.rcvBuffer_afterRead_of_ne l' hx,
          ServerEvent.advance, Function.update_of_ne hx]
        exact h.rcvBuffer x

theorem Alike.respond (h : Alike leaveOut pos l l')
    (sort : List RecvTimeClientRequest → List RecvTimeClientRequest) (r : MEClientResponse) :
    SameOutcome leaveOut pos (l.step sort (.respond r)) (l'.step sort (.respond r)) := by
  rw [LiveServer.step, LiveServer.step, h.server]
  cases l.orderServer.sendResponse r with
  | error e => exact rfl
  | ok x =>
    refine ⟨rfl, h.handed, fun y => ?_, fun y => ?_⟩
    · dsimp only
      rw [LiveServer.sendTo_apply, LiveServer.sendTo_apply]
      exact congrArg (· ++ _) (h.sendBuffer y)
    · dsimp only
      rw [LiveServer.sendTo_apply, LiveServer.sendTo_apply]
      exact h.rcvBuffer y

/-- **One event of both runs.** -/
theorem Alike.step (h : Alike leaveOut pos l l')
    (sort : List RecvTimeClientRequest → List RecvTimeClientRequest) (e : ServerEvent)
    (hout : Counted.LeavesOutForeign leaveOut (l, pos) e) :
    SameOutcome leaveOut (e.advance pos) (l.step sort e)
      (l'.step sort (e.without leaveOut pos)) := by
  cases e with
  | read socket rxTime bytes => exact h.read socket rxTime bytes hout
  | finished =>
    refine ⟨?_, h.handed, h.sendBuffer, h.rcvBuffer⟩
    change (l'.orderServer.recvFinishedCallback sort).1 = _
    rw [h.server]
    rfl
  | respond r => exact h.respond sort r

/-- What is compared: the requests handed to the sequencer, and the server with its counters and
bindings. -/
def LiveServer.view (l : LiveServer) : List RecvTimeClientRequest × OrderServer :=
  (l.handed, l.orderServer)

/-- The runs are alike behind all their events. -/
theorem Alike.run (sort : List RecvTimeClientRequest → List RecvTimeClientRequest)
    (events : List ServerEvent) {pos : Socket → Nat} {l l' : LiveServer}
    (h : Alike leaveOut pos l l')
    (hout : Along (Counted.Next sort) (Counted.LeavesOutForeign leaveOut) (l, pos) events) :
    ((l.run sort events).map LiveServer.view) =
      ((l'.run sort (withoutAll leaveOut pos events)).map LiveServer.view) := by
  induction events generalizing pos l l' with
  | nil => exact congrArg Except.ok (Prod.ext h.handed.symm h.server.symm)
  | cons e events ih =>
    have hstep := h.step sort e hout.1
    rw [withoutAll, LiveServer.run_cons, LiveServer.run_cons]
    cases hl : l.step sort e with
    | error f =>
      rw [hl] at hstep
      cases hl' : l'.step sort (e.without leaveOut pos) with
      | error f' =>
        rw [hl'] at hstep
        rw [error_bind, error_bind, show f = f' from hstep]
      | ok m' =>
        rw [hl'] at hstep
        exact False.elim hstep
    | ok m =>
      rw [hl] at hstep
      cases hl' : l'.step sort (e.without leaveOut pos) with
      | error f' =>
        rw [hl'] at hstep
        exact False.elim hstep
      | ok m' =>
        rw [hl'] at hstep
        exact ih hstep (hout.2 (m, e.advance pos) ⟨hl, rfl⟩)

theorem take_withoutAll (events : List ServerEvent) (n : Nat) :
    (withoutAll leaveOut pos events).take n = withoutAll leaveOut pos (events.take n) := by
  induction events generalizing pos n with
  | nil => rw [List.take_nil, withoutAll, List.take_nil]
  | cons e events ih =>
    cases n with
    | zero => rfl
    | succ n => rw [List.take_succ_cons, withoutAll, withoutAll, List.take_succ_cons, ih]

/-- **Spoofed requests are noninterfering**: leaving out messages that name a client of another
socket changes nothing of what is handed over, of the counters and of the bindings, behind any
number of events. -/
theorem noninterference (sort : List RecvTimeClientRequest → List RecvTimeClientRequest)
    (s : OrderServer) (leaveOut : Socket → Nat → Bool) (events : List ServerEvent)
    (hout : Along (Counted.Next sort) (Counted.LeavesOutForeign leaveOut)
      ({ orderServer := s }, fun _ => 0) events) (n : Nat) :
    ((({ orderServer := s } : LiveServer).run sort (events.take n)).map LiveServer.view) =
      ((({ orderServer := s } : LiveServer).run sort
        ((withoutAll leaveOut (fun _ => 0) events).take n)).map LiveServer.view) := by
  rw [take_withoutAll]
  refine Alike.run sort _ ⟨rfl, rfl, fun _ => rfl, fun _ => ⟨0, rfl, OrderServer.size_pos, rfl⟩⟩ ?_
  exact hout.take n

/-- A message that names client 1. -/
def spoofed : OMClientRequest := ⟨1, newRequest 1 1⟩

/-- Client 1 is on socket 7, and its next request comes from socket 8. -/
theorem noninterference_spoofed :
    let start : LiveServer := { orderServer := OrderServer.init.bindSocket 1 7 }
    let leaveOut := fun (socket : Socket) (_ : Nat) => decide (socket = 8)
    let events := [.read 8 3 (omClientRequestCodec.encode spoofed), .finished]
    ((start.run (StableSort.stableSort RecvTimeClientRequest.time) (events.take 2)).map
        LiveServer.view) =
      ((start.run (StableSort.stableSort RecvTimeClientRequest.time)
        ((withoutAll leaveOut (fun _ => 0) events).take 2)).map LiveServer.view) := by
  intro start leaveOut events
  refine noninterference _ (OrderServer.init.bindSocket 1 7) leaveOut events ⟨?_, ?_⟩ 2
  · have hchunks := omClientRequestCodec.chunks_encodeAll_nil OrderServer.size_pos [spoofed]
    have hbytes : omClientRequestCodec.encodeAll [spoofed] =
        ([] : List UInt8) ++ omClientRequestCodec.encode spoofed := by
      rw [encodeAll_cons]
      exact List.append_nil _
    rw [hbytes] at hchunks
    change ForeignIn (leaveOut 8) 8 3 (OrderServer.init.bindSocket 1 7) _
      (omClientRequestCodec.chunks ([] ++ omClientRequestCodec.encode spoofed)).1
    rw [hchunks]
    exact ⟨fun _ => ⟨by decide, by decide, by decide⟩, fun _ _ => trivial⟩
  · exact fun _ _ => ⟨trivial, fun _ _ => trivial⟩

end Runs

end Exchange
end TradingEcosystem
