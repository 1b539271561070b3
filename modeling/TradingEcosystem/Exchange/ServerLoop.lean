import TradingEcosystem.Common.TCPServer
import TradingEcosystem.Exchange.ExchangeMain

/-!
# The loop of the order server

`OrderServer::run`: a `poll`, a `sendAndRecv` of all sockets in the lists, and the responses that
wait.  What the kernel does in a round is an input: its events, what it has received for each socket
and how it answers the calls of `::send`.

A socket is only read and written while it is in `recv_sockets_`, and a client keeps the socket it
came on first.  `shut_out` puts the two together: a client whose connection was reported broken is
out for good.  Whatever connection it comes back on, none of its requests is accepted, and what it
is sent piles up in the buffer of the broken socket.
-/

set_option autoImplicit false

namespace TradingEcosystem
namespace Exchange

open Codec TCPServer

/-- A round of the loop. -/
structure ServerRound where
  poll : PollAnswer := {}
  /-- What `recvmsg` has for a socket, which may be nothing, and its time. -/
  received : Socket → Nanos × List UInt8 := fun _ => (0, [])
  /-- The answers to the calls of `::send` on a socket. -/
  kernel : Socket → Kernel
  /-- How many calls there are. -/
  calls : Socket → Nat := fun _ => 0
  /-- The responses that wait behind the reads. -/
  responses : List MEClientResponse := []

/-- The order server with its connections. -/
structure ServerLoop where
  tcpServer : TCPServer := .listen
  server : LiveServer := { orderServer := .init }

instance (l : SendLoop) : Decidable l.Done := inferInstanceAs (Decidable (¬ _))

namespace ServerRound

/-- `TCPSocket::sendAndRecv`.  The listener has neither bytes nor a buffer. -/
def sendAndRecv (r : ServerRound) (l : LiveServer) : SocketPtr → Except Fault LiveServer
  | .listener => .ok l
  | .connection socket => do
    let l ← l.read socket (r.received socket).1 (r.received socket).2
    let after := (l.tcpSocket socket).sendLoopAfter (r.kernel socket) (r.calls socket)
    if after.Done then
      return { l with
        tcpSocket := Function.update l.tcpSocket socket ((l.tcpSocket socket).sent after) }
    else .error .diverges

/-- `sendAndRecv` returns `true`. -/
def receives (r : ServerRound) : SocketPtr → Bool
  | .listener => false
  | .connection socket => (r.received socket).2 ≠ []

end ServerRound

namespace ServerLoop

variable (sort : List RecvTimeClientRequest → List RecvTimeClientRequest)

/-- `if(recv) recv_finished_callback_()`. -/
def recvFinished (t : TCPServer) (l : LiveServer) (r : ServerRound) : Except Fault LiveServer :=
  if t.recvSockets.any r.receives then l.step sort .finished else .ok l

/-- `TCPServer::sendAndRecv`. -/
def sendAndRecv (t : TCPServer) (l : LiveServer) (r : ServerRound) : Except Fault LiveServer := do
  let l ← t.recvSockets.foldlM r.sendAndRecv l
  let l ← recvFinished sort t l r
  t.sendSockets.foldlM r.sendAndRecv l

/-- What waits for the client fits `send_buffer_`. -/
def FitsSendBuffer (l : LiveServer) (c : ClientId) : Prop :=
  ∀ socket ∈ l.orderServer.clientIdSocket c,
    (l.tcpSocket socket).sendBuffer.length ≤ tcpBufferSize

instance (l : LiveServer) (c : ClientId) : Decidable (FitsSendBuffer l c) :=
  inferInstanceAs (Decidable (∀ socket ∈ l.orderServer.clientIdSocket c, _))

/-- A response.  The copies into `send_buffer_` look at no bound. -/
def respond (l : LiveServer) (response : MEClientResponse) : Except Fault LiveServer := do
  let l ← l.step sort (.respond response)
  if FitsSendBuffer l response.clientId then return l else .error .badIndex

/-- The responses one after the other. -/
def respondAll (l : LiveServer) (responses : List MEClientResponse) : Except Fault LiveServer :=
  responses.foldlM (respond sort) l

/-- One round. -/
def round (x : ServerLoop) (r : ServerRound) : Except Fault ServerLoop := do
  let t ← x.tcpServer.poll r.poll
  let l ← sendAndRecv sort t x.server r
  let l ← respondAll sort l r.responses
  return ⟨t, l⟩

/-- Round after round. -/
def run (x : ServerLoop) (rounds : List ServerRound) : Except Fault ServerLoop :=
  rounds.foldlM (round sort) x

def Next (x : ServerLoop) (r : ServerRound) (x' : ServerLoop) : Prop := x.round sort r = .ok x'

/-- The kernel answers the `poll` of the round. -/
def Answered (x : ServerLoop) (r : ServerRound) : Prop := x.tcpServer.Answers r.poll

/-! ## A socket that is not served -/

/-- The responses for a client. -/
def responsesFor (c : ClientId) (responses : List MEClientResponse) : List MEClientResponse :=
  responses.filter fun r => r.clientId = c

/-- **What does not happen to a client** with a socket that nobody serves, with this many responses
for it on the way: it keeps the socket, nothing of it is handed to the sequencer, and nothing leaves
the buffer of the socket, where each response takes 16 bytes. -/
structure Shut (c : ClientId) (socket : Socket) (responses : Nat) (l l' : LiveServer) : Prop where
  bound : l'.orderServer.clientIdSocket c = some socket
  handed : ∃ more, l'.handed = l.handed ++ more ∧ ∀ q ∈ more, q.request.clientId ≠ c
  queued : ∃ bytes, (l'.tcpSocket socket).sendBuffer = (l.tcpSocket socket).sendBuffer ++ bytes ∧
    16 * responses ≤ bytes.length

variable {sort} {c : ClientId} {socket : Socket} {l l' l'' : LiveServer} {n m : Nat}

theorem shut_refl (h : l.orderServer.clientIdSocket c = some socket) : Shut c socket 0 l l :=
  ⟨h, ⟨[], (List.append_nil _).symm, fun _ hq => absurd hq List.not_mem_nil⟩,
    ⟨[], (List.append_nil _).symm, Nat.le_refl _⟩⟩

theorem Shut.trans (h : Shut c socket n l l') (h' : Shut c socket m l' l'') :
    Shut c socket (n + m) l l'' := by
  obtain ⟨more, hmore, hforeign⟩ := h.handed
  obtain ⟨more', hmore', hforeign'⟩ := h'.handed
  obtain ⟨bytes, hbytes, hlen⟩ := h.queued
  obtain ⟨bytes', hbytes', hlen'⟩ := h'.queued
  refine ⟨h'.bound, ⟨more ++ more', ?_, fun q hq => ?_⟩, ⟨bytes ++ bytes', ?_, ?_⟩⟩
  · rw [hmore', hmore, List.append_assoc]
  · exact (List.mem_append.1 hq).elim (hforeign q) (hforeign' q)
  · rw [hbytes', hbytes, List.append_assoc]
  · rw [List.length_append]
    omega

/-- A step without responses, which leaves the buffer of the socket as it is. -/
theorem shut_of_quiet (hbound : l'.orderServer.clientIdSocket c = some socket)
    {more : List RecvTimeClientRequest} (hmore : l'.handed = l.handed ++ more)
    (hforeign : ∀ q ∈ more, q.request.clientId ≠ c)
    (hbuffer : (l'.tcpSocket socket).sendBuffer = (l.tcpSocket socket).sendBuffer) :
    Shut c socket 0 l l' :=
  ⟨hbound, ⟨more, hmore, hforeign⟩, ⟨[], by rw [hbuffer, List.append_nil], Nat.le_refl _⟩⟩

/-- A request on another socket is not one of the client. -/
theorem handleRequest_other {s s' : OrderServer} (hs : s.clientIdSocket c = some socket)
    {other : Socket} (hother : other ≠ socket) {rxTime : Nanos} {r : OMClientRequest}
    (h : s.handleRequest other rxTime r = .ok s') : s'.clientIdSocket c = some socket ∧
      ∃ more, s'.fifoSequencer.pendingClientRequests =
        s.fifoSequencer.pendingClientRequests ++ more ∧ ∀ q ∈ more, q.request.clientId ≠ c := by
  obtain ⟨hc, hsocket, hpending⟩ := OrderServer.handleRequest_eq_ok h
  by_cases hclient : r.meClientRequest.clientId = c
  · have hforeign : s.clientIdSocket r.meClientRequest.clientId ≠ some other := by
      rw [hclient, hs]
      exact fun heq => hother (Option.some.inj heq).symm
    have hbound : s.clientIdSocket r.meClientRequest.clientId ≠ none := by
      rw [hclient, hs]
      exact Option.some_ne_none _
    rw [OrderServer.handleRequest_of_foreign hc hbound hforeign] at h
    obtain rfl := Except.ok.inj h
    exact ⟨hs, [], (List.append_nil _).symm, fun _ hq => absurd hq List.not_mem_nil⟩
  · refine ⟨?_, ?_⟩
    · rw [hsocket, OrderServer.clientIdSocket_bindSocket, hs, Option.some_or]
    · rcases hpending with hsame | hadded
      · rw [hsame]
        exact ⟨[], (List.append_nil _).symm, fun _ hq => absurd hq List.not_mem_nil⟩
      · refine ⟨_, hadded, fun q hq => ?_⟩
        rw [List.mem_singleton.1 hq]
        exact hclient

theorem handleAll_other {s s' : OrderServer} (hs : s.clientIdSocket c = some socket)
    {other : Socket} (hother : other ≠ socket) {rxTime : Nanos} (requests : List OMClientRequest)
    (h : s.handleAll other rxTime requests = .ok s') : s'.clientIdSocket c = some socket ∧
      ∃ more, s'.fifoSequencer.pendingClientRequests =
        s.fifoSequencer.pendingClientRequests ++ more ∧ ∀ q ∈ more, q.request.clientId ≠ c := by
  induction requests generalizing s with
  | nil =>
    obtain rfl := Except.ok.inj h
    exact ⟨hs, [], (List.append_nil _).symm, fun _ hq => absurd hq List.not_mem_nil⟩
  | cons r rest ih =>
    rw [OrderServer.handleAll_cons] at h
    obtain ⟨s₁, hr, h⟩ := bind_eq_ok.1 h
    obtain ⟨hs₁, more, hmore, hforeign⟩ := handleRequest_other hs hother hr
    obtain ⟨hs', more', hmore', hforeign'⟩ := ih hs₁ h
    refine ⟨hs', more ++ more', ?_, fun q hq => ?_⟩
    · rw [hmore', hmore, List.append_assoc]
    · exact (List.mem_append.1 hq).elim (hforeign q) (hforeign' q)

/-- **A read of another socket.** -/
theorem shut_read (hs : l.orderServer.clientIdSocket c = some socket) {other : Socket}
    (hother : other ≠ socket) {rxTime : Nanos} {bytes : List UInt8}
    (h : l.read other rxTime bytes = .ok l') : Shut c socket 0 l l' := by
  by_cases hb : bytes = []
  · rw [LiveServer.read, if_pos hb] at h
    obtain rfl := Except.ok.inj h
    exact shut_refl hs
  · rw [LiveServer.read_eq _ _ _ hb] at h
    dsimp only at h
    cases hall : l.orderServer.handleAll other rxTime (omClientRequestCodec.chunks
        ((l.tcpSocket other).rcvBuffer ++ bytes)).1 with
    | error e =>
      rw [hall] at h
      exact absurd h (by simp [Except.map])
    | ok s =>
      rw [hall] at h
      obtain rfl := Except.ok.inj h
      obtain ⟨hbound, more, hmore, hforeign⟩ := handleAll_other hs hother _ hall
      refine shut_of_quiet hbound ?_ hforeign (LiveServer.sendBuffer_afterRead _ _ _ _ _)
      rw [LiveServer.afterRead, newlyPending, hmore, List.drop_left]

/-- **`sendAndRecv` of another socket.** -/
theorem shut_sendAndRecv (hs : l.orderServer.clientIdSocket c = some socket) {r : ServerRound}
    {s : SocketPtr} (hother : s ≠ .connection socket) (h : r.sendAndRecv l s = .ok l') :
    Shut c socket 0 l l' := by
  cases s with
  | listener =>
    obtain rfl := Except.ok.inj h
    exact shut_refl hs
  | connection other =>
    have hne : other ≠ socket := fun heq => hother (congrArg _ heq)
    obtain ⟨l₁, hread, h⟩ := bind_eq_ok.1 h
    have hshut := shut_read hs hne hread
    dsimp only at h
    split at h
    · obtain rfl := Except.ok.inj h
      refine Shut.trans (m := 0) hshut ?_
      refine shut_of_quiet hshut.bound (List.append_nil _).symm
        (fun _ hq => absurd hq List.not_mem_nil) ?_
      dsimp only
      rw [Function.update_of_ne hne.symm]
    · exact absurd h (by simp)

theorem shut_foldl_sendAndRecv {r : ServerRound} (sockets : List SocketPtr) {l : LiveServer}
    (hs : l.orderServer.clientIdSocket c = some socket)
    (hother : SocketPtr.connection socket ∉ sockets)
    (h : sockets.foldlM r.sendAndRecv l = .ok l') : Shut c socket 0 l l' := by
  induction sockets generalizing l with
  | nil =>
    obtain rfl := Except.ok.inj h
    exact shut_refl hs
  | cons s rest ih =>
    rw [List.foldlM_cons] at h
    obtain ⟨l₁, hone, h⟩ := bind_eq_ok.1 h
    obtain ⟨hne, hrest⟩ := not_or.1 (fun hm => hother (List.mem_cons.2 hm))
    have hshut := shut_sendAndRecv hs (Ne.symm hne) hone
    exact hshut.trans (ih hshut.bound hrest h)

theorem shut_finished (hs : l.orderServer.clientIdSocket c = some socket)
    (h : l.step sort .finished = .ok l') : Shut c socket 0 l l' := by
  obtain rfl := Except.ok.inj h
  exact shut_of_quiet hs (List.append_nil _).symm (fun _ hq => absurd hq List.not_mem_nil) rfl

/-- The number of a response and the eight bytes of it that are sent. -/
theorem length_streamTo_responseSends (socket : Socket) (number : UInt64) (r : MEClientResponse) :
    (OrderServer.streamTo socket (OrderServer.responseSends socket number r)).length = 16 := by
  have hnumber : (u64.encode number).length = 8 := u64.length_encode number
  have hresponse : (meClientResponseCodec.encode r).length = 42 :=
    meClientResponseCodec.length_encode r
  simp [OrderServer.streamTo, OrderServer.responseSends, OrderServer.sizeofPointer, hnumber,
    hresponse]

/-- **A response**: one for the client goes into the buffer of its socket. -/
theorem shut_respond (hs : l.orderServer.clientIdSocket c = some socket) {r : MEClientResponse}
    (h : l.step sort (.respond r) = .ok l') :
    Shut c socket (responsesFor c [r]).length l l' := by
  rw [LiveServer.step] at h
  obtain ⟨⟨s, sends⟩, hsend, h⟩ := bind_eq_ok.1 h
  obtain rfl := Except.ok.inj h
  rw [OrderServer.sendResponse] at hsend
  split at hsend
  · next hc =>
    obtain ⟨_, -, hsend⟩ := bind_eq_ok.1 hsend
    obtain ⟨other, hother, hsend⟩ := bind_eq_ok.1 hsend
    obtain ⟨rfl, rfl⟩ := Prod.mk.inj (Except.ok.inj hsend)
    refine ⟨hs, ⟨[], (List.append_nil _).symm, fun _ hq => absurd hq List.not_mem_nil⟩,
      ⟨_, by dsimp only; rw [LiveServer.sendTo_apply], ?_⟩⟩
    rw [responsesFor]
    by_cases hclient : r.clientId = c
    · have hsame : other = socket := by
        rw [hclient, hs] at hother
        exact (Except.ok.inj hother).symm
      rw [hsame, length_streamTo_responseSends]
      simp [hclient]
    · simp [hclient]
  · exact absurd hsend (by simp)

/-- What fits is the step of the server. -/
theorem step_of_respond {r : MEClientResponse} (h : respond sort l r = .ok l') :
    l.step sort (.respond r) = .ok l' := by
  obtain ⟨l₁, hstep, h⟩ := bind_eq_ok.1 h
  split at h
  · obtain rfl := Except.ok.inj h
    exact hstep
  · exact absurd h (by simp)

theorem shut_respondAll (responses : List MEClientResponse) {l : LiveServer}
    (hs : l.orderServer.clientIdSocket c = some socket)
    (h : respondAll sort l responses = .ok l') :
    Shut c socket (responsesFor c responses).length l l' := by
  induction responses generalizing l with
  | nil =>
    obtain rfl := Except.ok.inj h
    exact shut_refl hs
  | cons r rest ih =>
    rw [respondAll, List.foldlM_cons] at h
    obtain ⟨l₁, hone, h⟩ := bind_eq_ok.1 h
    have hshut := shut_respond hs (step_of_respond hone)
    have hlen : (responsesFor c (r :: rest)).length =
        (responsesFor c [r]).length + (responsesFor c rest).length := by
      rw [responsesFor, responsesFor, responsesFor, ← List.length_append, ← List.filter_append]
      rfl
    rw [hlen]
    exact hshut.trans (ih hshut.bound h)

/-! ## Rounds -/

variable {x x' y : ServerLoop}

/-- The connections are in the lists they should be in, and one of them is known to be broken. -/
structure Broken (socket : Socket) (x : ServerLoop) : Prop where
  serves : ∃ gone, Serves gone x.tcpServer
  disconnected : SocketPtr.connection socket ∈ x.tcpServer.disconnectedSockets

/-- **One round.** -/
theorem Broken.round (h : Broken socket x) (hs : x.server.orderServer.clientIdSocket c = some socket)
    {r : ServerRound} (ha : x.Answered r) (hn : x.round sort r = .ok x') :
    Broken socket x' ∧ Shut c socket (responsesFor c r.responses).length x.server x'.server := by
  obtain ⟨t, hpoll, hn⟩ := bind_eq_ok.1 hn
  obtain ⟨l, hsendAndRecv, hn⟩ := bind_eq_ok.1 hn
  obtain ⟨l', hrespond, hn⟩ := bind_eq_ok.1 hn
  obtain rfl := Except.ok.inj hn
  obtain ⟨gone, hserves⟩ := h.serves
  have hserves' := hserves.poll ha hpoll
  have hnot : SocketPtr.connection socket ∉ t.recvSockets := by
    rw [hserves'.recvSockets, mem_without]
    exact fun hm => hm.2 h.disconnected
  refine ⟨⟨⟨_, hserves'⟩, hserves'.gone.subset h.disconnected⟩, ?_⟩
  rw [sendAndRecv] at hsendAndRecv
  obtain ⟨l₁, hrecv, hsendAndRecv⟩ := bind_eq_ok.1 hsendAndRecv
  obtain ⟨l₂, hfinished, hsendAndRecv⟩ := bind_eq_ok.1 hsendAndRecv
  rw [hserves'.sendSockets] at hsendAndRecv
  obtain rfl := Except.ok.inj hsendAndRecv
  have hfirst := shut_foldl_sendAndRecv t.recvSockets hs hnot hrecv
  have hsecond : Shut c socket 0 l₁ l₂ := by
    rw [recvFinished] at hfinished
    split at hfinished
    · exact shut_finished hfirst.bound hfinished
    · obtain rfl := Except.ok.inj hfinished
      exact shut_refl hfirst.bound
  have hthird := shut_respondAll r.responses hsecond.bound hrespond
  simpa using (hfirst.trans hsecond).trans hthird

/-- Round after round. -/
theorem Broken.run (rounds : List ServerRound) {x : ServerLoop} (h : Broken socket x)
    (hs : x.server.orderServer.clientIdSocket c = some socket)
    (ha : Run.Along (Next sort) Answered x rounds) (hrun : x.run sort rounds = .ok y) :
    Shut c socket (responsesFor c (rounds.flatMap (·.responses))).length x.server y.server := by
  induction rounds generalizing x with
  | nil =>
    obtain rfl := Except.ok.inj hrun
    exact shut_refl hs
  | cons r rest ih =>
    rw [ServerLoop.run, List.foldlM_cons] at hrun
    obtain ⟨x₁, hn, hrun⟩ := bind_eq_ok.1 hrun
    obtain ⟨h₁, hshut⟩ := h.round hs ha.1 hn
    rw [List.flatMap_cons, responsesFor, List.filter_append, List.length_append]
    exact hshut.trans (ih h₁ hshut.bound (ha.2 x₁ hn) hrun)

/-- The connections, wherever a run gets to. -/
theorem serves_of_run {rounds : List ServerRound}
    (ha : Run.Along (Next sort) Answered {} rounds)
    (hrun : ({} : ServerLoop).run sort rounds = .ok x) : ∃ gone, Serves gone x.tcpServer := by
  refine ha.inv_of_foldlM (fun x => ∃ gone, Serves gone x.tcpServer) (fun _ _ _ hn => hn) ?_
    ⟨[], serves_listen⟩ hrun
  rintro x r x' ⟨gone, h⟩ ha hn
  obtain ⟨t, hpoll, hn⟩ := bind_eq_ok.1 hn
  obtain ⟨l, -, hn⟩ := bind_eq_ok.1 hn
  obtain ⟨l', -, hn⟩ := bind_eq_ok.1 hn
  obtain rfl := Except.ok.inj hn
  exact ⟨_, h.poll ha hpoll⟩

/-- Whether the kernel answers depends on the connections alone. -/
theorem along_answered {rounds : List ServerRound}
    (h : Run.Along (fun (t : TCPServer) (r : ServerRound) t' => t.poll r.poll = .ok t')
      (fun t r => t.Answers r.poll) .listen rounds) :
    Run.Along (Next sort) Answered {} rounds := by
  have hnext : ∀ x r x', Next sort x r x' → x.tcpServer.poll r.poll = .ok x'.tcpServer := by
    intro x r x' hn
    obtain ⟨t, hpoll, hn⟩ := bind_eq_ok.1 hn
    obtain ⟨l, -, hn⟩ := bind_eq_ok.1 hn
    obtain ⟨l', -, hn⟩ := bind_eq_ok.1 hn
    obtain rfl := Except.ok.inj hn
    exact hpoll
  exact Run.Along.comap (x := ({} : ServerLoop)) ServerLoop.tcpServer hnext h

/-- A request of client 1 with a number. -/
def numbered (seqNum : UInt64) : OMClientRequest := ⟨seqNum, EngineThreads.unknownCancel⟩

end ServerLoop
end Exchange
end TradingEcosystem
