import TradingEcosystem.Common.Types
import TradingEcosystem.Lib.Along

/-!
# The connections of a server

`common/tcp_server.cpp`: `poll` takes the sockets out of its lists that were reported broken, asks
the kernel for events and accepts the connections that wait.  The kernel's answers are inputs here:
the events of a call of `epoll_wait` and what `accept` returns until it has nothing more.

No connection ever gets into `sockets_`, so that `epoll_wait` is asked for one event at a time, and
nobody asks for `EPOLLOUT`, so that nothing gets into `send_sockets_`.  `disconnected_sockets_` is
never cleared.  `Serves` is what this leaves of the lists: `recv_sockets_` is all connections that
were accepted, in that order, without those that were reported broken before the last `poll`.
-/

set_option autoImplicit false

namespace TradingEcosystem

/-- A `TCPSocket*` of the server: its `listener_socket_`, or a connection by the order of the
calls of `new`. -/
inductive SocketPtr where
  | listener
  | connection (n : Nat)
  deriving DecidableEq

/-- An `epoll_event`. -/
structure EpollEvent where
  socket : SocketPtr
  epollIn : Bool := false
  epollOut : Bool := false
  epollErr : Bool := false
  epollHup : Bool := false

/-- A descriptor that `accept` returns, and whether the calls for it succeed. -/
structure Accepted where
  fd : Int
  /-- `setNonBlocking(fd) && setNoDelay(fd)`. -/
  configured : Bool := true
  /-- `epoll_ctl` in `addToEpollList`. -/
  watched : Bool := true

/-- What the kernel has for a `poll`: the events, and the connections that wait. -/
structure PollAnswer where
  events : List EpollEvent := []
  accepted : List Accepted := []

/-- `TCPServer`, with the kernel's list of what it watches. -/
structure TCPServer where
  sockets : List SocketPtr := []
  recvSockets : List SocketPtr := []
  sendSockets : List SocketPtr := []
  disconnectedSockets : List SocketPtr := []
  epollList : List SocketPtr := []
  /-- The calls of `new` so far. -/
  created : Nat := 0

namespace TCPServer

/-- `if(std::find(…) == …end()) push_back`. -/
def pushNew (l : List SocketPtr) (s : SocketPtr) : List SocketPtr := if s ∈ l then l else l ++ [s]

/-- `listen`. -/
def listen : TCPServer := { epollList := [.listener] }

/-- `removeFromEpollList`, whose result nobody looks at. -/
def removeFromEpollList (t : TCPServer) (s : SocketPtr) : TCPServer :=
  { t with epollList := t.epollList.filter fun r => r ≠ s }

/-- `deleteSocket`.  The object is kept, and so is its descriptor. -/
def deleteSocket (t : TCPServer) (s : SocketPtr) : TCPServer :=
  let t := t.removeFromEpollList s
  { t with
    sockets := t.sockets.filter fun r => r ≠ s
    recvSockets := t.recvSockets.filter fun r => r ≠ s
    sendSockets := t.sendSockets.filter fun r => r ≠ s }

/-- `max_events`. -/
def maxEvents (t : TCPServer) : Nat := 1 + t.sockets.length

/-- The first loop of `poll`. -/
def deleteDisconnected (t : TCPServer) : TCPServer := t.disconnectedSockets.foldl deleteSocket t

/-- The body of the loop over the events, with `have_new_connections`. -/
def handleEvent (x : TCPServer × Bool) (e : EpollEvent) : TCPServer × Bool :=
  let (t, haveNewConnections) := x
  if e.epollIn ∧ e.socket = .listener then (t, true)
  else
    let t := if e.epollIn then { t with recvSockets := pushNew t.recvSockets e.socket } else t
    let t := if e.epollOut then { t with sendSockets := pushNew t.sendSockets e.socket } else t
    let t := if e.epollErr ∨ e.epollHup then
        { t with disconnectedSockets := pushNew t.disconnectedSockets e.socket }
      else t
    (t, haveNewConnections)

/-- The body of the loop around `accept`. -/
def acceptConnection (t : TCPServer) (c : Accepted) : Except Fault TCPServer := do
  assert (c.configured = true)
    ("Failed to set NonBlocking or NoDelay on socket:" ++ toString c.fd)
  let socket : SocketPtr := .connection t.created
  assert (c.watched = true) "Unable to add socket to epoll\n"
  return { t with
    created := t.created + 1
    epollList := t.epollList ++ [socket]
    recvSockets := pushNew t.recvSockets socket }

/-- `poll`. -/
def poll (t : TCPServer) (answer : PollAnswer) : Except Fault TCPServer :=
  let (t, haveNewConnections) := answer.events.foldl handleEvent (t.deleteDisconnected, false)
  if haveNewConnections then answer.accepted.foldlM acceptConnection t else .ok t

/-- What the kernel answers: as many events as it was asked for, of sockets on its list, and none
that were not asked for but errors. -/
structure Answers (t : TCPServer) (answer : PollAnswer) : Prop where
  count : answer.events.length ≤ t.maxEvents
  watched : ∀ e ∈ answer.events, e.socket ∈ t.deleteDisconnected.epollList
  requested : ∀ e ∈ answer.events, e.epollOut = false

def Next (t : TCPServer) (answer : PollAnswer) (t' : TCPServer) : Prop := t.poll answer = .ok t'

/-- `poll` after `poll`. -/
def polls (t : TCPServer) (answers : List PollAnswer) : Except Fault TCPServer :=
  answers.foldlM poll t

/-! ## The lists -/

/-- All connections there ever were, in the order in which they were accepted. -/
def connections (t : TCPServer) : List SocketPtr := (List.range t.created).map .connection

/-- The sockets that are not gone. -/
def without (l gone : List SocketPtr) : List SocketPtr := l.filter fun s => s ∉ gone

/-- **What the lists hold** behind a `poll` that has found `gone` in `disconnected_sockets_`. -/
structure Serves (gone : List SocketPtr) (t : TCPServer) : Prop where
  sockets : t.sockets = []
  sendSockets : t.sendSockets = []
  recvSockets : t.recvSockets = without t.connections gone
  epollList : t.epollList = without (.listener :: t.connections) gone
  disconnected : ∀ s ∈ t.disconnectedSockets, s ∈ SocketPtr.listener :: t.connections
  gone : gone <+: t.disconnectedSockets

theorem serves_listen : Serves [] listen where
  sockets := rfl
  sendSockets := rfl
  recvSockets := rfl
  epollList := rfl
  disconnected := fun _ h => absurd h List.not_mem_nil
  gone := List.prefix_refl _

variable {t t' : TCPServer} {gone : List SocketPtr} {answer : PollAnswer}

theorem connection_mem {n : Nat} : SocketPtr.connection n ∈ t.connections ↔ n < t.created := by
  simp [connections]

theorem connections_succ (n : Nat) : (List.range (n + 1)).map SocketPtr.connection =
    (List.range n).map .connection ++ [.connection n] := by
  rw [List.range_succ, List.map_append, List.map_singleton]

theorem mem_without {l gone : List SocketPtr} {s : SocketPtr} :
    s ∈ without l gone ↔ s ∈ l ∧ s ∉ gone := by
  rw [without, List.mem_filter, decide_eq_true_iff]

@[simp] theorem without_nil (l : List SocketPtr) : without l [] = l :=
  List.filter_eq_self.2 fun _ _ => decide_eq_true List.not_mem_nil

theorem without_append (l l' gone : List SocketPtr) :
    without (l ++ l') gone = without l gone ++ without l' gone := List.filter_append ..

theorem without_cons_gone (l : List SocketPtr) (s : SocketPtr) (gone : List SocketPtr) :
    without (l.filter fun r => r ≠ s) gone = without l (s :: gone) := by
  rw [without, without, List.filter_filter]
  refine List.filter_congr fun r _ => ?_
  rw [Bool.eq_iff_iff, Bool.and_eq_true, decide_eq_true_iff, decide_eq_true_iff,
    decide_eq_true_iff, List.mem_cons, not_or, and_comm]

/-- What is gone may be taken out again. -/
theorem without_without {gone gone' : List SocketPtr} (h : gone <+: gone') (l : List SocketPtr) :
    without (without l gone) gone' = without l gone' := by
  rw [without, without, without, List.filter_filter]
  refine List.filter_congr fun r _ => ?_
  rw [Bool.eq_iff_iff, Bool.and_eq_true, decide_eq_true_iff, decide_eq_true_iff]
  exact and_iff_left_of_imp fun hr hg => hr (h.subset hg)

/-- Deleting one socket after the other. -/
theorem foldl_deleteSocket (gone : List SocketPtr) (t : TCPServer) :
    gone.foldl deleteSocket t = { t with
      sockets := without t.sockets gone
      recvSockets := without t.recvSockets gone
      sendSockets := without t.sendSockets gone
      epollList := without t.epollList gone } := by
  induction gone generalizing t with
  | nil => simp only [List.foldl_nil, without_nil]
  | cons s rest ih =>
    rw [List.foldl_cons, ih, deleteSocket, removeFromEpollList]
    simp only [without_cons_gone]

theorem pushNew_of_mem {l : List SocketPtr} {s : SocketPtr} (h : s ∈ l) : pushNew l s = l :=
  if_pos h

theorem pushNew_of_notMem {l : List SocketPtr} {s : SocketPtr} (h : s ∉ l) :
    pushNew l s = l ++ [s] := if_neg h

theorem prefix_pushNew (l : List SocketPtr) (s : SocketPtr) : l <+: pushNew l s := by
  rw [pushNew]
  split
  · exact List.prefix_refl _
  · exact List.prefix_append _ _

theorem mem_of_mem_pushNew {l : List SocketPtr} {r s : SocketPtr} (h : r ∈ pushNew l s) :
    r ∈ l ∨ r = s := by
  rw [pushNew] at h
  split at h
  · exact .inl h
  · simpa using h

/-- The first loop leaves the connections that are not broken. -/
theorem Serves.deleteDisconnected (h : Serves gone t) :
    Serves t.disconnectedSockets t.deleteDisconnected := by
  rw [TCPServer.deleteDisconnected, foldl_deleteSocket]
  refine ⟨?_, ?_, ?_, ?_, h.disconnected, List.prefix_refl _⟩
  · dsimp only
    rw [h.sockets, without, List.filter_nil]
  · dsimp only
    rw [h.sendSockets, without, List.filter_nil]
  · dsimp only
    rw [h.recvSockets, without_without h.gone, connections, connections]
  · dsimp only
    rw [h.epollList, without_without h.gone, connections, connections]

/-- A broken socket joins its list. -/
theorem Serves.disconnect (h : Serves gone t) {s : SocketPtr}
    (hs : s ∈ SocketPtr.listener :: t.connections) :
    Serves gone { t with disconnectedSockets := pushNew t.disconnectedSockets s } where
  sockets := h.sockets
  sendSockets := h.sendSockets
  recvSockets := h.recvSockets
  epollList := h.epollList
  disconnected := fun r hr => by
    rcases mem_of_mem_pushNew hr with hr | rfl
    · exact h.disconnected r hr
    · exact hs
  gone := h.gone.trans (prefix_pushNew _ _)

/-- **One event**: a connection that has something is on the list already. -/
theorem Serves.handleEvent (h : Serves gone t) {e : EpollEvent} (hw : e.socket ∈ t.epollList)
    (hr : e.epollOut = false) (b : Bool) :
    Serves gone (handleEvent (t, b) e).1 ∧ (handleEvent (t, b) e).1.epollList = t.epollList := by
  rw [h.epollList, mem_without] at hw
  rw [TCPServer.handleEvent]
  dsimp only
  split
  · exact ⟨h, rfl⟩
  · next hin =>
    have hrecv : (if e.epollIn = true then
        { t with recvSockets := pushNew t.recvSockets e.socket } else t) = t := by
      split
      · next hepoll =>
        have hconnection : e.socket ∈ t.connections :=
          (List.mem_cons.1 hw.1).resolve_left fun hl => hin ⟨hepoll, hl⟩
        have hmem : e.socket ∈ t.recvSockets := by
          rw [h.recvSockets]
          exact mem_without.2 ⟨hconnection, hw.2⟩
        rw [pushNew_of_mem hmem]
      · rfl
    rw [hrecv, hr]
    simp only [Bool.false_eq_true, if_false]
    split
    · exact ⟨h.disconnect hw.1, rfl⟩
    · exact ⟨h, rfl⟩

theorem Serves.handleEvents (events : List EpollEvent) {t : TCPServer} (h : Serves gone t)
    (hw : ∀ e ∈ events, e.socket ∈ t.epollList) (hr : ∀ e ∈ events, e.epollOut = false) (b : Bool) :
    Serves gone (events.foldl TCPServer.handleEvent (t, b)).1 := by
  induction events generalizing t b with
  | nil => exact h
  | cons e rest ih =>
    obtain ⟨h₁, hlist⟩ := h.handleEvent (hw e List.mem_cons_self) (hr e List.mem_cons_self) b
    rw [List.foldl_cons]
    exact ih h₁ (fun e he => hlist ▸ hw e (List.mem_cons_of_mem _ he))
      (fun e he => hr e (List.mem_cons_of_mem _ he)) _

/-- A new connection is not broken. -/
theorem Serves.notMem_gone (h : Serves gone t) : SocketPtr.connection t.created ∉ gone := by
  intro hg
  rcases List.mem_cons.1 (h.disconnected _ (h.gone.subset hg)) with hl | hc
  · exact absurd hl (by simp)
  · exact Nat.lt_irrefl _ (connection_mem.1 hc)

/-- **A connection is accepted.** -/
theorem Serves.acceptConnection (h : Serves gone t) {c : Accepted}
    (hn : t.acceptConnection c = .ok t') : Serves gone t' := by
  obtain ⟨_, -, hn⟩ := bind_eq_ok.1 hn
  obtain ⟨_, -, hn⟩ := bind_eq_ok.1 hn
  obtain rfl := Except.ok.inj hn
  have hkept : without [SocketPtr.connection t.created] gone = [.connection t.created] :=
    List.filter_eq_self.2 fun s hs => by
      rw [List.mem_singleton.1 hs]
      exact decide_eq_true h.notMem_gone
  have hnew : SocketPtr.connection t.created ∉ t.recvSockets := by
    rw [h.recvSockets, mem_without]
    exact fun hm => Nat.lt_irrefl _ (connection_mem.1 hm.1)
  refine ⟨h.sockets, h.sendSockets, ?_, ?_, fun s hs => ?_, h.gone⟩
  · dsimp only
    rw [pushNew_of_notMem hnew, h.recvSockets, connections, connections, connections_succ,
      without_append, hkept]
  · dsimp only
    rw [h.epollList, connections, connections, connections_succ, ← List.cons_append,
      without_append, hkept]
  · refine List.mem_cons.2 ((List.mem_cons.1 (h.disconnected s hs)).imp_right fun hc => ?_)
    rw [connections, connections_succ]
    exact List.mem_append_left _ hc

/-- **One `poll`.** -/
theorem Serves.poll (h : Serves gone t) (ha : t.Answers answer) (hn : t.poll answer = .ok t') :
    Serves t.disconnectedSockets t' := by
  have hevents := h.deleteDisconnected.handleEvents answer.events ha.watched ha.requested false
  rw [TCPServer.poll] at hn
  dsimp only at hn
  split at hn
  · exact Run.inv_of_foldlM (Serves t.disconnectedSockets)
      (fun _ _ _ h hn => h.acceptConnection hn) hevents hn
  · exact Except.ok.inj hn ▸ hevents

theorem created_handleEvents (events : List EpollEvent) (x : TCPServer × Bool) :
    (events.foldl handleEvent x).1.created = x.1.created := by
  induction events generalizing x with
  | nil => rfl
  | cons e rest ih =>
    have hone : (handleEvent x e).1.created = x.1.created := by
      rw [handleEvent]
      dsimp only
      split
      · rfl
      · split <;> split <;> split <;> rfl
    rw [List.foldl_cons, ih, hone]

/-- No connection is made twice. -/
theorem created_poll (hn : t.poll answer = .ok t') : t.created ≤ t'.created := by
  have hevents : (answer.events.foldl handleEvent (t.deleteDisconnected, false)).1.created =
      t.created := by
    rw [created_handleEvents, deleteDisconnected, foldl_deleteSocket]
  rw [TCPServer.poll] at hn
  dsimp only at hn
  split at hn
  · refine Run.inv_of_foldlM (fun u => t.created ≤ u.created) (fun u c u' hu hc => ?_)
      (Nat.le_of_eq hevents.symm) hn
    obtain ⟨_, -, hc⟩ := bind_eq_ok.1 hc
    obtain ⟨_, -, hc⟩ := bind_eq_ok.1 hc
    obtain rfl := Except.ok.inj hc
    exact Nat.le_succ_of_le hu
  · exact Except.ok.inj hn ▸ Nat.le_of_eq hevents.symm

/-- An event is about one socket. -/
theorem length_disconnected_handleEvent (x : TCPServer × Bool) (e : EpollEvent) :
    (handleEvent x e).1.disconnectedSockets.length ≤ x.1.disconnectedSockets.length + 1 := by
  have hpush : (pushNew x.1.disconnectedSockets e.socket).length ≤
      x.1.disconnectedSockets.length + 1 := by
    rw [pushNew]
    split
    · exact Nat.le_succ _
    · exact Nat.le_of_eq List.length_append
  rw [handleEvent]
  dsimp only
  split
  · exact Nat.le_succ _
  · by_cases hin : e.epollIn = true <;> by_cases hout : e.epollOut = true <;>
      by_cases hbroken : e.epollErr = true ∨ e.epollHup = true <;>
        simp only [hin, hout, hbroken, if_true, if_false, hpush, Nat.le_succ,
          Bool.false_eq_true]

theorem disconnected_acceptConnection {c : Accepted} (hn : t.acceptConnection c = .ok t') :
    t'.disconnectedSockets = t.disconnectedSockets := by
  obtain ⟨_, -, hn⟩ := bind_eq_ok.1 hn
  obtain ⟨_, -, hn⟩ := bind_eq_ok.1 hn
  obtain rfl := Except.ok.inj hn
  rfl

/-- **A `poll` hears of one broken socket** at most. -/
theorem Serves.length_disconnected (h : Serves gone t) (ha : t.Answers answer)
    (hn : t.poll answer = .ok t') :
    t'.disconnectedSockets.length ≤ t.disconnectedSockets.length + 1 := by
  have hone : answer.events.length ≤ 1 := by
    have hcount := ha.count
    rwa [maxEvents, h.sockets, List.length_nil, Nat.add_zero] at hcount
  have hstart : t.deleteDisconnected.disconnectedSockets = t.disconnectedSockets := by
    rw [TCPServer.deleteDisconnected, foldl_deleteSocket]
  have hevents : (answer.events.foldl TCPServer.handleEvent
      (t.deleteDisconnected, false)).1.disconnectedSockets.length ≤
        t.disconnectedSockets.length + 1 := by
    rw [← hstart]
    rcases hlist : answer.events with _ | ⟨e, _ | ⟨e', rest⟩⟩
    · exact Nat.le_succ _
    · exact length_disconnected_handleEvent (t.deleteDisconnected, false) e
    · rw [hlist] at hone
      exact absurd hone (by simp)
  rw [TCPServer.poll] at hn
  dsimp only at hn
  split at hn
  · refine Run.inv_of_foldlM (fun t' => t'.disconnectedSockets.length ≤ _)
      (fun _ _ _ h hn => ?_) hevents hn
    rw [disconnected_acceptConnection hn]
    exact h
  · exact Except.ok.inj hn ▸ hevents

/-- What a run of `poll` leaves. -/
theorem serves_of_polls {answers : List PollAnswer}
    (ha : Run.Along Next Answers listen answers) (hrun : listen.polls answers = .ok t) :
    ∃ gone, Serves gone t :=
  ha.inv_of_foldlM (fun t => ∃ gone, Serves gone t) (fun _ _ _ hn => hn)
    (fun _ _ _ ⟨_, h⟩ ha hn => ⟨_, h.poll ha hn⟩) ⟨[], serves_listen⟩ hrun

theorem length_disconnected_of_polls (answers : List PollAnswer) {t : TCPServer}
    (h : Serves gone t) (ha : Run.Along Next Answers t answers) (hrun : t.polls answers = .ok t') :
    t'.disconnectedSockets.length ≤ t.disconnectedSockets.length + answers.length := by
  induction answers generalizing t gone with
  | nil => exact Except.ok.inj hrun ▸ Nat.le_refl _
  | cons answer rest ih =>
    rw [polls, List.foldlM_cons] at hrun
    obtain ⟨t₁, hn, hrun⟩ := bind_eq_ok.1 hrun
    have hone := h.length_disconnected ha.1 hn
    have hrest := ih (h.poll ha.1 hn) (ha.2 t₁ hn) hrun
    rw [List.length_cons]
    omega

/-- **Who is served** in the round behind a `poll`: all connections that were accepted, in their
order, but those that an earlier `poll` heard were broken, which is one of them a `poll`. -/
theorem recvSockets_of_polls {answers : List PollAnswer}
    (ha : Run.Along Next Answers listen (answers ++ [answer]))
    (hrun : listen.polls answers = .ok t) (hn : t.poll answer = .ok t') :
    t'.recvSockets = without t'.connections t.disconnectedSockets ∧ t'.sendSockets = [] ∧
      t'.epollList = without (.listener :: t'.connections) t.disconnectedSockets ∧
      t.disconnectedSockets <+: t'.disconnectedSockets ∧
      t'.disconnectedSockets.length ≤ answers.length + 1 := by
  have hbefore : Run.Along Next Answers listen answers := by
    have htake := ha.take answers.length
    rwa [List.take_left] at htake
  have hlast : t.Answers answer := ha.of_foldlM (fun _ _ _ hn => hn) hrun
  obtain ⟨gone, h⟩ := serves_of_polls hbefore hrun
  have h' := h.poll hlast hn
  have hlength := length_disconnected_of_polls answers serves_listen hbefore hrun
  have hone := h.length_disconnected hlast hn
  refine ⟨h'.recvSockets, h'.sendSockets, h'.epollList, h'.gone, ?_⟩
  have hzero : listen.disconnectedSockets.length = 0 := rfl
  omega

/-- Two connections, and the first of them breaks. -/
def twoConnections : List PollAnswer :=
  [{ events := [{ socket := .listener, epollIn := true }], accepted := [⟨7, true, true⟩,
      ⟨8, true, true⟩] },
   { events := [{ socket := .connection 0, epollHup := true }] }]

theorem recvSockets_of_polls_two : ∃ t t' : TCPServer, listen.polls twoConnections = .ok t ∧
    t.poll {} = .ok t' ∧ t'.recvSockets = [.connection 1] ∧
    t'.recvSockets = without t'.connections t.disconnectedSockets ∧ t'.sendSockets = [] ∧
      t'.epollList = without (.listener :: t'.connections) t.disconnectedSockets ∧
      t.disconnectedSockets <+: t'.disconnectedSockets ∧
      t'.disconnectedSockets.length ≤ twoConnections.length + 1 := by
  have hanswers : Run.Along Next Answers listen (twoConnections ++ [({} : PollAnswer)]) := by
    refine ⟨⟨by decide, by decide, by decide⟩, fun t₁ h₁ => ?_⟩
    obtain rfl := Except.ok.inj h₁
    refine ⟨⟨by decide, by decide, by decide⟩, fun t₂ h₂ => ?_⟩
    obtain rfl := Except.ok.inj h₂
    exact ⟨⟨by decide, by decide, by decide⟩, fun _ _ => trivial⟩
  exact ⟨_, _, rfl, rfl, rfl, recvSockets_of_polls hanswers rfl rfl⟩

end TCPServer
end TradingEcosystem
