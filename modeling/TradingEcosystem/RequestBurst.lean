import TradingEcosystem.RequestStream
import TradingEcosystem.Exchange.ServerLoop

/-!
# A round of reads

What `TCPServer::sendAndRecv` makes of a burst.  The sockets of `recv_sockets_` are gone over once:
what a socket has is read, and what waits for its client is sent, in a loop that ends when the
kernel lets it.  Only behind the last socket does `recv_finished_callback_` publish what the reads
have collected.

The receive buffers take 64 MiB each and the sequencer takes 1024 requests for all of them.
`survives_iff` is the bound this leaves for a round in which every client does as it should: that,
and an end to every loop around `::send`.
-/

set_option autoImplicit false

namespace TradingEcosystem
namespace Exchange

open Codec StableSort TCPServer

namespace ServerRound

/-- The requests that the read of a socket completes. -/
def arrivalsOf (r : ServerRound) (l : LiveServer) : SocketPtr → List Arrival
  | .listener => []
  | .connection socket =>
    if (r.received socket).2 = [] then []
    else (omClientRequestCodec.chunks
      ((l.tcpSocket socket).rcvBuffer ++ (r.received socket).2)).1.map
        (⟨socket, (r.received socket).1, ·⟩)

/-- Those of the round, in the order in which the server comes to them. -/
def arrivals (r : ServerRound) (l : LiveServer) (sockets : List SocketPtr) : List Arrival :=
  sockets.flatMap (r.arrivalsOf l)

/-- The loop around `::send` is through with the calls of the round. -/
def Sends (r : ServerRound) (l : LiveServer) : SocketPtr → Prop
  | .listener => True
  | .connection socket =>
    ((l.tcpSocket socket).sendLoopAfter (r.kernel socket) (r.calls socket)).Done

/-- What the loop over the sockets does: it accepts everything and sends on no other socket. -/
structure Took (r : ServerRound) (l : LiveServer) (sockets : List SocketPtr) (l' : LiveServer) :
    Prop where
  orderServer : l'.orderServer = l.orderServer.acceptAll (r.arrivals l sockets)
  handed : l'.handed = l.handed ++ (r.arrivals l sockets).map Arrival.pending
  published : l'.published = l.published
  others : ∀ socket, .connection socket ∉ sockets → l'.tcpSocket socket = l.tcpSocket socket

variable {r : ServerRound} {l l₁ l' : LiveServer} {sockets : List SocketPtr}

theorem arrivals_cons (p : SocketPtr) (sockets : List SocketPtr) :
    r.arrivals l (p :: sockets) = r.arrivalsOf l p ++ r.arrivals l sockets := List.flatMap_cons

@[simp] theorem arrivals_singleton (p : SocketPtr) : r.arrivals l [p] = r.arrivalsOf l p :=
  List.flatMap_singleton _ _

/-- What arrives on a socket and what is sent on it is up to the socket. -/
theorem arrivalsOf_congr {p : SocketPtr}
    (h : ∀ socket, p = .connection socket → l'.tcpSocket socket = l.tcpSocket socket) :
    r.arrivalsOf l' p = r.arrivalsOf l p := by
  cases p with
  | listener => rfl
  | connection socket => rw [arrivalsOf, arrivalsOf, h socket rfl]

theorem sends_congr {p : SocketPtr}
    (h : ∀ socket, p = .connection socket → l'.tcpSocket socket = l.tcpSocket socket) :
    r.Sends l' p ↔ r.Sends l p := by
  cases p with
  | listener => exact Iff.rfl
  | connection socket => rw [Sends, Sends, h socket rfl]

/-- The sockets behind the first one are as before. -/
theorem Took.same {p : SocketPtr} (h : r.Took l [p] l₁) (hp : p ∉ sockets) {q : SocketPtr}
    (hq : q ∈ sockets) (socket : Socket) (hsocket : q = .connection socket) :
    l₁.tcpSocket socket = l.tcpSocket socket := by
  refine h.others socket fun hmem => hp ?_
  rw [← List.mem_singleton.1 hmem, ← hsocket]
  exact hq

theorem Took.arrivals_eq {p : SocketPtr} (h : r.Took l [p] l₁) (hp : p ∉ sockets) :
    r.arrivals l₁ sockets = r.arrivals l sockets :=
  List.flatMap_congr fun _ hq => arrivalsOf_congr (h.same hp hq)

/-- One socket, and the ones behind it. -/
theorem Took.cons {p : SocketPtr} (h : r.Took l [p] l₁) (hp : p ∉ sockets)
    (h' : r.Took l₁ sockets l') : r.Took l (p :: sockets) l' := by
  have hrest := h.arrivals_eq hp
  refine ⟨?_, ?_, h'.published.trans h.published, fun socket hsocket => ?_⟩
  · rw [h'.orderServer, h.orderServer, hrest, arrivals_singleton, arrivals_cons,
      OrderServer.acceptAll_append]
  · rw [h'.handed, h.handed, hrest, arrivals_singleton, arrivals_cons, List.map_append,
      List.append_assoc]
  · obtain ⟨hne, hmem⟩ := not_or.1 fun hm => hsocket (List.mem_cons.2 hm)
    exact (h'.others socket hmem).trans (h.others socket fun hm => hne (List.mem_singleton.1 hm))

/-! ## The loop over the sockets -/

/-- A read whose requests are due, with room for them. -/
theorem read_of_allDue {socket : Socket}
    (h : l.orderServer.AllDue (r.arrivalsOf l (.connection socket)))
    (hroom : l.orderServer.fifoSequencer.pendingClientRequests.length +
      (r.arrivalsOf l (.connection socket)).length ≤ meMaxPendingRequests) :
    ∃ l', l.read socket (r.received socket).1 (r.received socket).2 = .ok l' ∧
      r.Took l [.connection socket] l' := by
  by_cases hb : (r.received socket).2 = []
  · have hnone : r.arrivals l [.connection socket] = [] :=
      (arrivals_singleton _).trans (if_pos hb)
    refine ⟨l, by rw [LiveServer.read, if_pos hb], ?_, ?_, rfl, fun _ _ => rfl⟩
    · rw [hnone]
      rfl
    · rw [hnone, List.map_nil, List.append_nil]
  · have hsome : r.arrivals l [.connection socket] = _ :=
      (arrivals_singleton _).trans (if_neg hb)
    rw [arrivalsOf, if_neg hb] at h hroom
    rw [List.length_map] at hroom
    rw [LiveServer.read_eq l socket _ hb]
    dsimp only
    rw [OrderServer.handleAll_of_allDue socket _ _ h hroom]
    refine ⟨_, rfl, ?_, ?_, rfl, fun x hx => Function.update_of_ne (fun heq => ?_) _ _⟩
    · rw [hsome]
      rfl
    · rw [hsome, LiveServer.afterRead, newlyPending, OrderServer.pending_acceptAll,
        List.drop_left]
    · exact hx (List.mem_singleton.2 (congrArg _ heq))

/-- One of them is one too many. -/
theorem read_full {socket : Socket}
    (h : l.orderServer.AllDue (r.arrivalsOf l (.connection socket)))
    (hpending : l.orderServer.fifoSequencer.pendingClientRequests.length ≤ meMaxPendingRequests)
    (hfull : meMaxPendingRequests < l.orderServer.fifoSequencer.pendingClientRequests.length +
      (r.arrivalsOf l (.connection socket)).length) :
    l.read socket (r.received socket).1 (r.received socket).2 =
      .error (.fatal "To many pending requests") := by
  by_cases hb : (r.received socket).2 = []
  · rw [arrivalsOf, if_pos hb] at hfull
    exact absurd hfull (Nat.not_lt.2 hpending)
  · rw [arrivalsOf, if_neg hb] at h hfull
    rw [List.length_map] at hfull
    rw [LiveServer.read_eq l socket _ hb]
    dsimp only
    rw [OrderServer.handleAll_full socket _ _ h hpending hfull]
    rfl

/-- **One socket**: what it does when it returns, and when that is. -/
theorem took_of_sendAndRecv {p : SocketPtr} (h : l.orderServer.AllDue (r.arrivalsOf l p))
    (hpending : l.orderServer.fifoSequencer.pendingClientRequests.length ≤ meMaxPendingRequests)
    (hok : r.sendAndRecv l p = .ok l') : r.Took l [p] l' := by
  cases p with
  | listener =>
    obtain rfl := Except.ok.inj hok
    exact ⟨rfl, (List.append_nil _).symm, rfl, fun _ _ => rfl⟩
  | connection socket =>
    obtain ⟨l₁, hread, hok⟩ := bind_eq_ok.1 hok
    have hroom : l.orderServer.fifoSequencer.pendingClientRequests.length +
        (r.arrivalsOf l (.connection socket)).length ≤ meMaxPendingRequests := by
      by_contra hfull
      exact absurd (hread.symm.trans (read_full h hpending (Nat.lt_of_not_le hfull))) (by simp)
    obtain ⟨l₂, hread', htook⟩ := read_of_allDue h hroom
    obtain rfl := Except.ok.inj (hread.symm.trans hread')
    dsimp only at hok
    split at hok
    · obtain rfl := Except.ok.inj hok
      refine ⟨htook.orderServer, htook.handed, htook.published, fun x hx => ?_⟩
      have hne : x ≠ socket := fun heq => hx (List.mem_singleton.2 (congrArg _ heq))
      exact (Function.update_of_ne hne _ _).trans (htook.others x hx)
    · exact absurd hok (by simp)

theorem exists_sendAndRecv_iff {p : SocketPtr} (h : l.orderServer.AllDue (r.arrivalsOf l p))
    (hpending : l.orderServer.fifoSequencer.pendingClientRequests.length ≤ meMaxPendingRequests) :
    (∃ l', r.sendAndRecv l p = .ok l') ↔
      l.orderServer.fifoSequencer.pendingClientRequests.length + (r.arrivalsOf l p).length ≤
        meMaxPendingRequests ∧ r.Sends l p := by
  cases p with
  | listener => exact ⟨fun _ => ⟨hpending, trivial⟩, fun _ => ⟨l, rfl⟩⟩
  | connection socket =>
    rw [sendAndRecv]
    by_cases hroom : l.orderServer.fifoSequencer.pendingClientRequests.length +
        (r.arrivalsOf l (.connection socket)).length ≤ meMaxPendingRequests
    · obtain ⟨l₁, hread, -⟩ := read_of_allDue h hroom
      obtain ⟨rest, hsocket⟩ := LiveServer.tcpSocket_read hread socket
      -- the read does not touch what the send loop looks at
      have hsame : (l₁.tcpSocket socket).sendLoopAfter (r.kernel socket) (r.calls socket) =
          (l.tcpSocket socket).sendLoopAfter (r.kernel socket) (r.calls socket) := by
        rw [hsocket]
        rfl
      rw [hread, ok_bind, hsame]
      refine ⟨fun hex => ⟨hroom, ?_⟩, fun ⟨_, hdone⟩ => ⟨_, if_pos hdone⟩⟩
      obtain ⟨l', hl'⟩ := hex
      by_contra hnot
      exact absurd ((if_neg hnot).symm.trans hl') (by simp)
    · rw [read_full h hpending (Nat.lt_of_not_le hroom), error_bind]
      exact iff_of_false (by simp) fun hand => hroom hand.1

theorem length_pending_of_took {p : SocketPtr} (h : r.Took l [p] l₁) :
    l₁.orderServer.fifoSequencer.pendingClientRequests.length =
      l.orderServer.fifoSequencer.pendingClientRequests.length + (r.arrivalsOf l p).length := by
  rw [h.orderServer, OrderServer.pending_acceptAll, List.length_append, List.length_map,
    arrivals_singleton]

/-- **All sockets.** -/
theorem took_of_foldlM (sockets : List SocketPtr) {l : LiveServer} (hnodup : sockets.Nodup)
    (h : l.orderServer.AllDue (r.arrivals l sockets))
    (hpending : l.orderServer.fifoSequencer.pendingClientRequests.length ≤ meMaxPendingRequests)
    (hok : sockets.foldlM r.sendAndRecv l = .ok l') : r.Took l sockets l' := by
  induction sockets generalizing l with
  | nil =>
    obtain rfl := Except.ok.inj hok
    exact ⟨rfl, (List.append_nil _).symm, rfl, fun _ _ => rfl⟩
  | cons p rest ih =>
    rw [List.foldlM_cons] at hok
    obtain ⟨l₁, hone, hok⟩ := bind_eq_ok.1 hok
    rw [arrivals_cons, OrderServer.allDue_append] at h
    obtain ⟨hp, hnodup⟩ := List.nodup_cons.1 hnodup
    have htook := took_of_sendAndRecv h.1 hpending hone
    have hroom := ((exists_sendAndRecv_iff h.1 hpending).1 ⟨l₁, hone⟩).1
    refine htook.cons hp (ih hnodup ?_ ?_ hok)
    · rw [htook.arrivals_eq hp, htook.orderServer, arrivals_singleton]
      exact h.2
    · rwa [length_pending_of_took htook]

theorem exists_foldlM_iff (sockets : List SocketPtr) {l : LiveServer} (hnodup : sockets.Nodup)
    (h : l.orderServer.AllDue (r.arrivals l sockets))
    (hpending : l.orderServer.fifoSequencer.pendingClientRequests.length ≤ meMaxPendingRequests) :
    (∃ l', sockets.foldlM r.sendAndRecv l = .ok l') ↔
      l.orderServer.fifoSequencer.pendingClientRequests.length +
        (r.arrivals l sockets).length ≤ meMaxPendingRequests ∧ ∀ p ∈ sockets, r.Sends l p := by
  induction sockets generalizing l with
  | nil => exact ⟨fun _ => ⟨hpending, by simp⟩, fun _ => ⟨l, rfl⟩⟩
  | cons p rest ih =>
    rw [arrivals_cons, OrderServer.allDue_append] at h
    obtain ⟨hp, hnodup⟩ := List.nodup_cons.1 hnodup
    have hfirst := exists_sendAndRecv_iff h.1 hpending
    -- behind the first socket the condition on the others is the one it was
    have hrest : ∀ l₁, r.sendAndRecv l p = .ok l₁ → ((∃ l', rest.foldlM r.sendAndRecv l₁ = .ok l') ↔
        l.orderServer.fifoSequencer.pendingClientRequests.length + (r.arrivalsOf l p).length +
          (r.arrivals l rest).length ≤ meMaxPendingRequests ∧ ∀ q ∈ rest, r.Sends l q) := by
      intro l₁ hone
      have htook := took_of_sendAndRecv h.1 hpending hone
      have hlen := length_pending_of_took htook
      have hroom := (hfirst.1 ⟨l₁, hone⟩).1
      rw [ih hnodup (by rw [htook.arrivals_eq hp, htook.orderServer, arrivals_singleton]; exact h.2)
        (hlen ▸ hroom), hlen, htook.arrivals_eq hp]
      exact and_congr_right fun _ =>
        forall₂_congr fun q hq => sends_congr (htook.same hp hq)
    rw [List.foldlM_cons, arrivals_cons, List.length_append, ← Nat.add_assoc, List.forall_mem_cons]
    constructor
    · rintro ⟨l', hl'⟩
      obtain ⟨l₁, hone, hl'⟩ := bind_eq_ok.1 hl'
      obtain ⟨hroom, hsends⟩ := (hrest l₁ hone).1 ⟨l', hl'⟩
      exact ⟨hroom, (hfirst.1 ⟨l₁, hone⟩).2, hsends⟩
    · rintro ⟨hroom, hsend, hsends⟩
      obtain ⟨l₁, hone⟩ := hfirst.2 ⟨by omega, hsend⟩
      obtain ⟨l', hl'⟩ := (hrest l₁ hone).2 ⟨hroom, hsends⟩
      exact ⟨l', bind_eq_ok.2 ⟨l₁, hone, hl'⟩⟩

/-- Where nothing was received, nothing arrives and the server is as it was. -/
theorem arrivals_of_quiet (hquiet : sockets.any r.receives = false) :
    r.arrivals l sockets = [] := by
  refine List.flatMap_eq_nil_iff.2 fun p hp => ?_
  have hnone := List.any_eq_false.1 hquiet p hp
  cases p with
  | listener => rfl
  | connection socket => exact if_pos (by simpa [receives] using hnone)

theorem orderServer_of_quiet (hquiet : sockets.any r.receives = false)
    (hok : sockets.foldlM r.sendAndRecv l = .ok l') : l'.orderServer = l.orderServer := by
  induction sockets generalizing l with
  | nil =>
    obtain rfl := Except.ok.inj hok
    rfl
  | cons p rest ih =>
    rw [List.any_cons, Bool.or_eq_false_iff] at hquiet
    rw [List.foldlM_cons] at hok
    obtain ⟨l₁, hone, hok⟩ := bind_eq_ok.1 hok
    refine (ih hquiet.2 hok).trans ?_
    cases p with
    | listener =>
      obtain rfl := Except.ok.inj hone
      rfl
    | connection socket =>
      have hb : (r.received socket).2 = [] := by simpa [receives] using hquiet.1
      rw [sendAndRecv, hb, LiveServer.read, if_pos rfl, ok_bind] at hone
      dsimp only at hone
      split at hone
      · obtain rfl := Except.ok.inj hone
        rfl
      · exact absurd hone (by simp)

end ServerRound

/-- Publishing leaves nothing out and adds nothing. -/
theorem OrderServer.recvFinishedCallback_perm
    {sort : List RecvTimeClientRequest → List RecvTimeClientRequest}
    (hs : Sorts RecvTimeClientRequest.time sort) (s : OrderServer) :
    (s.recvFinishedCallback sort).2.Perm
      (s.fifoSequencer.pendingClientRequests.map (·.request)) := by
  have hwritten : (s.recvFinishedCallback sort).2 =
      (sort s.fifoSequencer.pendingClientRequests).map (·.request) :=
    congrArg Prod.snd (FIFOSequencer.sequenceAndPublish_eq hs _)
  rw [hwritten]
  exact (hs.perm _).map _

namespace ServerLoop

variable (sort : List RecvTimeClientRequest → List RecvTimeClientRequest)

/-- What the clients have to do with the round: the bytes fit their buffers, and every request is
due. -/
structure Orderly (t : TCPServer) (l : LiveServer) (r : ServerRound) : Prop where
  fits : ∀ socket, .connection socket ∈ t.recvSockets →
    (l.tcpSocket socket).rcvBuffer.length + (r.received socket).2.length ≤ tcpBufferSize
  due : l.orderServer.AllDue (r.arrivals l t.recvSockets)

/-- `sendAndRecv` returns, after as many calls of `::send` as it takes, and the requests it
completes are accepted and published. -/
def Survives (t : TCPServer) (l : LiveServer) (r : ServerRound) : Prop :=
  ∃ calls l' written, sendAndRecv sort t l { r with calls } = .ok l' ∧
    l'.handed = l.handed ++ (r.arrivals l t.recvSockets).map Arrival.pending ∧
    l'.published = l.published ++ written ∧
    written.Perm ((r.arrivals l t.recvSockets).map (·.request.meClientRequest))

/-- Every loop around `::send` comes to an end. -/
def SendsEnd (t : TCPServer) (l : LiveServer) (r : ServerRound) : Prop :=
  ∀ socket, .connection socket ∈ t.recvSockets →
    ∃ n, ((l.tcpSocket socket).sendLoopAfter (r.kernel socket) n).Done

variable {sort} {t : TCPServer} {l l' : LiveServer} {r : ServerRound} {gone : List SocketPtr}
  {x : ServerLoop} {rounds : List ServerRound}

/-! ## Between the rounds -/

theorem nodup_recvSockets (h : Serves gone t) : t.recvSockets.Nodup := by
  rw [h.recvSockets]
  exact ((List.nodup_range).map fun a b hab => SocketPtr.connection.inj hab).filter _

theorem pending_sendAndRecv (h : Serves gone t)
    (hl : l.orderServer.fifoSequencer.pendingClientRequests = [])
    (hok : sendAndRecv sort t l r = .ok l') :
    l'.orderServer.fifoSequencer.pendingClientRequests = [] := by
  obtain ⟨l₁, hrecv, hok⟩ := bind_eq_ok.1 hok
  obtain ⟨l₂, hfinished, hok⟩ := bind_eq_ok.1 hok
  rw [h.sendSockets] at hok
  obtain rfl := Except.ok.inj hok
  rw [recvFinished] at hfinished
  split at hfinished
  · obtain rfl := Except.ok.inj hfinished
    exact FIFOSequencer.pending_sequenceAndPublish sort l₁.orderServer.fifoSequencer
  · next hquiet =>
    obtain rfl := Except.ok.inj hfinished
    rw [ServerRound.orderServer_of_quiet (Bool.eq_false_iff.2 hquiet) hrecv]
    exact hl

theorem pending_respondAll (responses : List MEClientResponse) {l : LiveServer}
    (hl : l.orderServer.fifoSequencer.pendingClientRequests = [])
    (hok : respondAll sort l responses = .ok l') :
    l'.orderServer.fifoSequencer.pendingClientRequests = [] := by
  induction responses generalizing l with
  | nil =>
    obtain rfl := Except.ok.inj hok
    exact hl
  | cons response rest ih =>
    rw [respondAll, List.foldlM_cons] at hok
    obtain ⟨l₁, hone, hok⟩ := bind_eq_ok.1 hok
    refine ih ?_ hok
    obtain ⟨⟨s, sends⟩, hsend, hstep⟩ := bind_eq_ok.1 (step_of_respond hone)
    obtain rfl := Except.ok.inj hstep
    rw [OrderServer.sendResponse] at hsend
    split at hsend
    · obtain ⟨_, -, hsend⟩ := bind_eq_ok.1 hsend
      obtain ⟨_, -, hsend⟩ := bind_eq_ok.1 hsend
      obtain ⟨rfl, -⟩ := Prod.mk.inj (Except.ok.inj hsend)
      exact hl
    · exact absurd hsend (by simp)

/-- **Nothing is pending between the rounds.** -/
theorem pending_of_run (ha : Run.Along (Next sort) Answered {} rounds)
    (hrun : ({} : ServerLoop).run sort rounds = .ok x) :
    x.server.orderServer.fifoSequencer.pendingClientRequests = [] := by
  refine (ha.inv_of_foldlM (fun x => (∃ gone, Serves gone x.tcpServer) ∧
    x.server.orderServer.fifoSequencer.pendingClientRequests = []) (fun _ _ _ hn => hn) ?_
      ⟨⟨[], serves_listen⟩, rfl⟩ hrun).2
  rintro x r x' ⟨⟨gone, h⟩, hpending⟩ ha hn
  obtain ⟨t, hpoll, hn⟩ := bind_eq_ok.1 hn
  obtain ⟨l, hsendAndRecv, hn⟩ := bind_eq_ok.1 hn
  obtain ⟨l', hrespond, hn⟩ := bind_eq_ok.1 hn
  obtain rfl := Except.ok.inj hn
  have hserves := h.poll ha hpoll
  exact ⟨⟨_, hserves⟩,
    pending_respondAll r.responses (pending_sendAndRecv hserves hpending hsendAndRecv) hrespond⟩

/-! ## The burst -/

/-- What the loop over the sockets took is published behind it. -/
theorem survives_of_took (hs : Sorts RecvTimeClientRequest.time sort) (h : Serves gone t)
    (hl : l.orderServer.fifoSequencer.pendingClientRequests = []) {calls : Socket → Nat}
    {l₁ : LiveServer} (hrecv : t.recvSockets.foldlM ({ r with calls } : ServerRound).sendAndRecv l =
      .ok l₁) (htook : ({ r with calls } : ServerRound).Took l t.recvSockets l₁) :
    Survives sort t l r := by
  have hpending := htook.orderServer ▸
    OrderServer.pending_acceptAll l.orderServer (r.arrivals l t.recvSockets)
  rw [hl, List.nil_append] at hpending
  by_cases hany : t.recvSockets.any ({ r with calls } : ServerRound).receives = true
  · refine ⟨calls, { l₁ with
        orderServer := (l₁.orderServer.recvFinishedCallback sort).1
        published := l₁.published ++ (l₁.orderServer.recvFinishedCallback sort).2 },
      (l₁.orderServer.recvFinishedCallback sort).2, ?_, htook.handed,
      congrArg (· ++ _) htook.published, ?_⟩
    · rw [sendAndRecv, hrecv, ok_bind, recvFinished, if_pos hany, h.sendSockets]
      rfl
    · have hperm := OrderServer.recvFinishedCallback_perm hs l₁.orderServer
      rw [hpending, List.map_map] at hperm
      exact hperm
  · have hnone : r.arrivals l t.recvSockets = [] :=
      ServerRound.arrivals_of_quiet (Bool.eq_false_iff.2 hany)
    refine ⟨calls, l₁, [], ?_, htook.handed, ?_, ?_⟩
    · rw [sendAndRecv, hrecv, ok_bind, recvFinished, if_neg hany, h.sendSockets]
      rfl
    · rw [htook.published, List.append_nil]
    · rw [hnone]
      exact List.Perm.refl _

/-- **An orderly burst is survived** exactly when the round completes no more requests than the
sequencer has room for and every loop around `::send` comes to an end. -/
theorem survives_iff (hs : Sorts RecvTimeClientRequest.time sort)
    (ha : Run.Along (Next sort) Answered {} rounds)
    (hrun : ({} : ServerLoop).run sort rounds = .ok x) (hr : x.Answered r)
    (hpoll : x.tcpServer.poll r.poll = .ok t) (ho : Orderly t x.server r) :
    Survives sort t x.server r ↔
      (r.arrivals x.server t.recvSockets).length ≤ meMaxPendingRequests ∧
        SendsEnd t x.server r := by
  obtain ⟨gone, hserves⟩ := serves_of_run ha hrun
  have hempty := pending_of_run ha hrun
  have hserves' := hserves.poll hr hpoll
  have hnodup := nodup_recvSockets hserves'
  have hroom : x.server.orderServer.fifoSequencer.pendingClientRequests.length ≤
      meMaxPendingRequests := by
    rw [hempty]
    exact Nat.zero_le _
  have hiff : ∀ calls : Socket → Nat,
      (∃ l', t.recvSockets.foldlM ({ r with calls } : ServerRound).sendAndRecv x.server = .ok l') ↔
        (r.arrivals x.server t.recvSockets).length ≤ meMaxPendingRequests ∧
          ∀ p ∈ t.recvSockets, ({ r with calls } : ServerRound).Sends x.server p := by
    intro calls
    have h := ServerRound.exists_foldlM_iff (r := { r with calls }) t.recvSockets hnodup ho.due hroom
    rw [hempty, List.length_nil, Nat.zero_add] at h
    exact h
  constructor
  · rintro ⟨calls, l', written, hok, -⟩
    obtain ⟨l₁, hrecv, -⟩ := bind_eq_ok.1 hok
    obtain ⟨hlen, hsends⟩ := (hiff calls).1 ⟨l₁, hrecv⟩
    exact ⟨hlen, fun socket hmem => ⟨calls socket, hsends _ hmem⟩⟩
  · rintro ⟨hlen, hends⟩
    choose! calls hcalls using hends
    obtain ⟨l₁, hrecv⟩ := (hiff calls).2 ⟨hlen, fun p hp => by
      cases p with
      | listener => trivial
      | connection socket => exact hcalls socket hp⟩
    exact survives_of_took hs hserves' hempty hrecv
      (ServerRound.took_of_foldlM t.recvSockets hnodup ho.due hroom hrecv)

/-! ### One connection -/

/-- A connection is accepted. -/
def connectingRound : ServerRound where
  kernel := fun _ => Output.greedy
  poll := { events := [{ socket := .listener, epollIn := true }]
            accepted := [⟨7, true, true⟩] }

/-- The server behind it. -/
def connected : ServerLoop where
  tcpServer :=
    { recvSockets := [.connection 0], epollList := [.listener, .connection 0], created := 1 }
  server := { orderServer := .init, tcpSocket := Function.update (fun _ => {}) 0 {} }

theorem run_connecting : ({} : ServerLoop).run sort [connectingRound] = .ok connected := rfl

theorem along_connecting : Run.Along (Next sort) Answered {} [connectingRound] :=
  along_answered ⟨⟨by decide, by decide, by decide⟩, fun _ _ => trivial⟩

/-- The first requests of a client come in one read. -/
def burstRound (requests : List MEClientRequest) : ServerRound where
  kernel := fun _ => Output.greedy
  received := fun _ =>
    (3, omClientRequestCodec.encodeAll (Trading.OrderGateway.numbered 1 requests))

variable {requests : List MEClientRequest}

theorem answered_burst : connected.Answered (burstRound requests) :=
  ⟨Nat.zero_le _, fun _ he => absurd he List.not_mem_nil, fun _ he => absurd he List.not_mem_nil⟩

theorem poll_burst : connected.tcpServer.poll (burstRound requests).poll =
    .ok connected.tcpServer := rfl

theorem arrivals_burst :
    (burstRound requests).arrivals connected.server connected.tcpServer.recvSockets =
      (Trading.OrderGateway.numbered 1 requests).map (⟨0, 3, ·⟩) := by
  have hchunks := omClientRequestCodec.chunks_encodeAll_nil OrderServer.size_pos
    (Trading.OrderGateway.numbered 1 requests)
  change (burstRound requests).arrivals connected.server [.connection 0] = _
  rw [ServerRound.arrivals_singleton, ServerRound.arrivalsOf]
  change (if omClientRequestCodec.encodeAll _ = [] then [] else
    (omClientRequestCodec.chunks ([] ++ omClientRequestCodec.encodeAll _)).1.map _) = _
  rw [List.nil_append, hchunks]
  split
  · next hb =>
    have hlen := congrArg List.length hb
    rw [length_encodeAll, show omClientRequestCodec.size = 38 from rfl] at hlen
    have hnil : Trading.OrderGateway.numbered 1 requests = [] :=
      List.eq_nil_of_length_eq_zero ((Nat.mul_eq_zero.1 hlen).resolve_right (by decide))
    rw [hnil]
    rfl
  · rfl

/-- A gateway's first requests are orderly, as long as they fit the buffer. -/
theorem orderly_burst (clientId : ClientId)
    (hc : clientId.toNat < meMaxNumClients) (hrs : ∀ r ∈ requests, r.clientId = clientId)
    (hlen : requests.length * 38 ≤ tcpBufferSize) :
    Orderly connected.tcpServer connected.server (burstRound requests) where
  fits := by
    intro socket hsocket
    obtain rfl := SocketPtr.connection.inj (List.mem_singleton.1 hsocket)
    change 0 + (omClientRequestCodec.encodeAll _).length ≤ _
    rw [length_encodeAll, Trading.OrderGateway.length_numbered, Nat.zero_add]
    exact hlen
  due := by
    rw [arrivals_burst]
    exact (RequestStream.Awaits.allDue hc 3 requests hrs ⟨.inl rfl, rfl⟩).1

/-- Nothing waits for the client. -/
theorem sendsEnd_burst : SendsEnd connected.tcpServer connected.server (burstRound requests) := by
  intro socket hsocket
  obtain rfl := SocketPtr.connection.inj (List.mem_singleton.1 hsocket)
  exact ⟨0, show ¬ min (tcpBufferSize : Int) 0 > 0 by decide⟩

theorem survives_two : Survives (stableSort RecvTimeClientRequest.time) connected.tcpServer
    connected.server (burstRound [newRequest 1 1, newRequest 1 2]) :=
  (survives_iff sorts_stableSort along_connecting run_connecting answered_burst poll_burst
    (orderly_burst 1 (by decide) (by decide) (by decide))).2
      ⟨by rw [arrivals_burst, List.length_map]; decide, sendsEnd_burst⟩

/-- The thousand and twenty-fifth request of a round is fatal, with nothing to send on any
socket. -/
theorem not_survives_full : ¬ ∀ sort, Sorts RecvTimeClientRequest.time sort → ∀ rounds x r t,
    Run.Along (Next sort) Answered {} rounds → ({} : ServerLoop).run sort rounds = .ok x →
    x.Answered r → x.tcpServer.poll r.poll = .ok t → Orderly t x.server r →
    SendsEnd t x.server r → Survives sort t x.server r := by
  intro h
  let requests := List.replicate 1025 (newRequest 1 1)
  have hlen : requests.length = 1025 := List.length_replicate
  have hclient : ∀ r ∈ requests, r.clientId = 1 := fun r hr => by
    rw [List.eq_of_mem_replicate hr]
    rfl
  have horderly := orderly_burst 1 (by decide) hclient (by rw [hlen]; decide)
  have hsurvives := h _ sorts_stableSort _ _ (burstRound requests) _ along_connecting
    run_connecting answered_burst poll_burst horderly sendsEnd_burst
  have hroom := ((survives_iff sorts_stableSort along_connecting run_connecting answered_burst
    poll_burst horderly).1 hsurvives).1
  rw [arrivals_burst, List.length_map, Trading.OrderGateway.length_numbered, hlen] at hroom
  exact absurd hroom (by decide)

end ServerLoop

end Exchange
end TradingEcosystem
