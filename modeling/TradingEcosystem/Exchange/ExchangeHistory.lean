import TradingEcosystem.Common.QueueProducer
import TradingEcosystem.Exchange.ExchangeMain
import TradingEcosystem.Exchange.TickerBooks

/-!
# The exchange as one machine

Three threads and three queues, with every access to an atomic one step, against the matching engine
alone, which takes one request after the other.  `InOrder` is the invariant of all interleavings in
which no ring fills up.  The requests the engine thread has taken are the first of those that were
sequenced; its books and all it has called for are what the engine alone makes of them; and each of
the two readers has the first of its part of that.

`history_of_run` says so of every state a run gets to, and that nothing is missing where nothing is
on its way.
-/

set_option autoImplicit false

namespace TradingEcosystem
namespace Exchange
namespace LiveExchange

open Run

/-! ## What an access does -/

section Accesses

variable {sort : List RecvTimeClientRequest → List RecvTimeClientRequest} {x x' : LiveExchange}

/-- An access of the engine's thread. -/
inductive EngineAccess (x : LiveExchange) : LiveExchange → Prop where
  /-- It takes a request. -/
  | process {i : Nat} {threads : EngineThreads} {requests : QueueRun MEClientRequest}
      (hs : x.threads.sending = []) (hr : x.requests.reader = .use i)
      (hthreads : x.threads.engineStep (x.requests.queue.store i) = .ok threads)
      (hrequests : x.requests.readerStep .pointer = .ok requests) :
      EngineAccess x { x with threads := threads, requests := requests }
  /-- It goes on with its queue. -/
  | look {requests : QueueRun MEClientRequest} (hs : x.threads.sending = [])
      (hother : ∀ i, x.requests.reader ≠ .use i)
      (hrequests : x.requests.readerStep .pointer = .ok requests) :
      EngineAccess x { x with requests := requests }
  /-- It sends. -/
  | write {request : MEClientRequest} {threads : EngineThreads} (hs : x.threads.sending ≠ [])
      (hthreads : x.threads.engineStep request = .ok threads) :
      EngineAccess x { x with threads := threads }

theorem engineAccess (hn : x.engineStep = .ok x') : x.EngineAccess x' := by
  rw [engineStep] at hn
  split at hn
  · next hs =>
    split at hn
    · next i hr =>
      obtain ⟨threads, hthreads, hn⟩ := bind_eq_ok.1 hn
      obtain ⟨requests, hrequests, hn⟩ := bind_eq_ok.1 hn
      obtain rfl := Except.ok.inj hn
      exact .process hs hr hthreads hrequests
    · next hother =>
      obtain ⟨requests, hrequests, hn⟩ := bind_eq_ok.1 hn
      obtain rfl := Except.ok.inj hn
      exact .look hs hother hrequests
  · next hs =>
    obtain ⟨threads, hthreads, hn⟩ := bind_eq_ok.1 hn
    obtain rfl := Except.ok.inj hn
    exact .write hs hthreads

/-- An access of the order server to the responses. -/
inductive SendAccess (sort : List RecvTimeClientRequest → List RecvTimeClientRequest)
    (x : LiveExchange) : LiveExchange → Prop where
  /-- It sends a response. -/
  | respond {i : Nat} {server : LiveServer} {threads : EngineThreads}
      (hr : x.threads.responses.reader = .use i)
      (hserver : x.server.step sort (.respond (x.threads.responses.queue.store i)) = .ok server)
      (hthreads : x.threads.step .orderServer = .ok threads) :
      SendAccess sort x { x with server := server, threads := threads }
  /-- It goes on with its queue. -/
  | look {threads : EngineThreads} (hother : ∀ i, x.threads.responses.reader ≠ .use i)
      (hthreads : x.threads.step .orderServer = .ok threads) :
      SendAccess sort x { x with threads := threads }

theorem sendAccess (hn : x.sendStep sort = .ok x') : SendAccess sort x x' := by
  rw [sendStep] at hn
  split at hn
  · next i hr =>
    obtain ⟨server, hserver, hn⟩ := bind_eq_ok.1 hn
    obtain ⟨threads, hthreads, hn⟩ := bind_eq_ok.1 hn
    obtain rfl := Except.ok.inj hn
    exact .respond hr hserver hthreads
  · next hother =>
    obtain ⟨threads, hthreads, hn⟩ := bind_eq_ok.1 hn
    obtain rfl := Except.ok.inj hn
    exact .look hother hthreads

end Accesses

/-! ## The invariant -/

/-- The condition: no access fills a ring. -/
def Roomy (x : LiveExchange) : Move → Prop
  | .sequence => ∀ r, x.requests.HasRoom (.writer r)
  | .engine => ∀ request, x.threads.Roomy (.engine request)
  | _ => True

variable (sort : List RecvTimeClientRequest → List RecvTimeClientRequest)

def Next (x : LiveExchange) (m : Move) (x' : LiveExchange) : Prop := x.step sort m = .ok x'

/-- **The invariant.** -/
structure InOrder (x : LiveExchange) : Prop where
  requests : x.requests.Coherent .pointer
  threads : x.threads.Running
  sequenced : x.requests.Feeds x.publishing x.server.published
  /-- The books are those of the engine alone, and so is all it has called for. -/
  engine : MatchingEngine.init.processAll x.requests.taken =
    .ok (x.threads.engine, x.threads.sent)

theorem inOrder_start : ({} : LiveExchange).InOrder where
  requests := QueueRun.coherent_start .pointer (by decide) _
  threads := EngineThreads.running_start (by decide) (by decide)
  sequenced := QueueRun.feeds_start _ _
  engine := rfl

variable {sort} {x x' : LiveExchange}

/-- Nothing but `recvFinishedCallback` publishes. -/
theorem published_read {l l' : LiveServer} {socket : Socket} {rxTime : Nanos} {bytes : List UInt8}
    (h : l.read socket rxTime bytes = .ok l') : l'.published = l.published := by
  rw [LiveServer.read] at h
  split at h
  · obtain rfl := Except.ok.inj h
    rfl
  · obtain ⟨_, -, h⟩ := bind_eq_ok.1 h
    obtain rfl := Except.ok.inj h
    rfl

theorem published_respond {l l' : LiveServer} {r : MEClientResponse}
    (h : l.step sort (.respond r) = .ok l') : l'.published = l.published := by
  obtain ⟨_, -, h⟩ := bind_eq_ok.1 h
  obtain rfl := Except.ok.inj h
  rfl

theorem InOrder.withServer (h : x.InOrder) {server : LiveServer} (heard : List (Socket × ClientId))
    (hs : server.published = x.server.published) :
    ({ x with server := server, heard := heard } : LiveExchange).InOrder :=
  ⟨h.requests, h.threads, hs.symm ▸ h.sequenced, h.engine⟩

theorem InOrder.receiveFinished (h : x.InOrder) (hn : x.step sort .receiveFinished = .ok x') :
    x'.InOrder := by
  obtain ⟨server, hfinished, hn⟩ := bind_eq_ok.1 hn
  obtain rfl := Except.ok.inj hn
  obtain rfl := Except.ok.inj hfinished
  exact ⟨h.requests, h.threads, h.sequenced.append _, h.engine⟩

theorem InOrder.sequence (h : x.InOrder) (hroom : x.Roomy .sequence) :
    x.sequenceStep.InOrder := by
  have hfeeds := h.sequenced
  rw [sequenceStep]
  cases hp : x.publishing with
  | nil => exact h
  | cons r rest =>
    rw [hp] at hfeeds
    refine ⟨h.requests.writerStep r (hroom r), h.threads, hfeeds.writerStep, ?_⟩
    dsimp only
    rw [QueueRun.writerStep_taken]
    exact h.engine

/-- The engine takes a request. -/
theorem InOrder.process (h : x.InOrder) (hs : x.threads.sending = []) {i : Nat}
    (hr : x.requests.reader = .use i) {threads : EngineThreads}
    {requests : QueueRun MEClientRequest}
    (hthreads : x.threads.engineStep (x.requests.queue.store i) = .ok threads)
    (hrequests : x.requests.readerStep .pointer = .ok requests) :
    ({ x with threads := threads, requests := requests } : LiveExchange).InOrder := by
  have hroomy : x.threads.Roomy (.engine (x.requests.queue.store i)) := by
    rw [EngineThreads.Roomy, hs]
    trivial
  have hrunning := h.threads.next hroomy hthreads
  have htaken : requests.taken = x.requests.taken ++ [x.requests.queue.store i] := by
    rcases QueueRun.readerStep_taken hrequests with ⟨j, hj, htaken⟩ | ⟨hnone, -⟩
    · obtain rfl := ReaderPc.use.inj (hr.symm.trans hj)
      exact htaken
    · exact absurd hr (hnone i)
  rw [EngineThreads.engineStep, hs] at hthreads
  obtain ⟨⟨engine, sent⟩, hprocess, hthreads⟩ := bind_eq_ok.1 hthreads
  obtain rfl := Except.ok.inj hthreads
  refine ⟨h.requests.readerStep hrequests, hrunning, h.sequenced.readerStep hrequests, ?_⟩
  have hengine := h.engine
  rw [MatchingEngine.processAll] at hengine ⊢
  rw [htaken, List.foldlM_append, hengine, ok_bind, List.foldlM_cons,
    MatchingEngine.processAfter, hprocess]
  rfl

/-- The engine sends. -/
theorem InOrder.sendStep (h : x.InOrder) (hs : x.threads.sending ≠ []) {request : MEClientRequest}
    (hroom : x.threads.Roomy (.engine request)) {threads : EngineThreads}
    (hthreads : x.threads.engineStep request = .ok threads) :
    ({ x with threads := threads } : LiveExchange).InOrder := by
  have hrunning := h.threads.next hroom hthreads
  have hsame : threads.engine = x.threads.engine ∧ threads.sent = x.threads.sent := by
    obtain ⟨message, rest, hcons⟩ := List.exists_cons_of_ne_nil hs
    rw [EngineThreads.engineStep, hcons] at hthreads
    cases message <;> obtain rfl := Except.ok.inj hthreads <;> exact ⟨rfl, rfl⟩
  exact ⟨h.requests, hrunning, h.sequenced, by rw [hsame.1, hsame.2]; exact h.engine⟩

theorem InOrder.engineStep (h : x.InOrder) (hroom : x.Roomy .engine)
    (hn : x.engineStep = .ok x') : x'.InOrder := by
  cases engineAccess hn with
  | process hs hr hthreads hrequests => exact h.process hs hr hthreads hrequests
  | look hs hother hrequests =>
    refine ⟨h.requests.readerStep hrequests, h.threads, h.sequenced.readerStep hrequests, ?_⟩
    rcases QueueRun.readerStep_taken hrequests with ⟨i, hi, -⟩ | ⟨-, htaken⟩
    · exact absurd hi (hother i)
    · exact htaken.symm ▸ h.engine
  | write hs hthreads => exact h.sendStep hs (hroom _) hthreads

/-- A reader of one of the engine's queues. -/
theorem InOrder.reader (h : x.InOrder) {a : Access} {threads : EngineThreads}
    (ha : a = .orderServer ∨ a = .marketDataPublisher) (hn : x.threads.step a = .ok threads) :
    ({ x with threads := threads } : LiveExchange).InOrder := by
  have hroom : x.threads.Roomy a := by rcases ha with rfl | rfl <;> trivial
  have hrunning := h.threads.next hroom hn
  have hsame : threads.engine = x.threads.engine ∧ threads.sent = x.threads.sent := by
    rcases ha with rfl | rfl <;> obtain ⟨q, -, hn⟩ := bind_eq_ok.1 hn <;>
      obtain rfl := Except.ok.inj hn <;> exact ⟨rfl, rfl⟩
  exact ⟨h.requests, hrunning, h.sequenced, by rw [hsame.1, hsame.2]; exact h.engine⟩

theorem InOrder.send (h : x.InOrder) (hn : x.sendStep sort = .ok x') : x'.InOrder := by
  cases sendAccess hn with
  | respond hr hserver hthreads =>
    exact (h.withServer x.heard (published_respond hserver)).reader (.inl rfl) hthreads
  | look hother hthreads => exact h.reader (.inl rfl) hthreads

/-- **One move.** -/
theorem InOrder.step (h : x.InOrder) {m : Move} (hroom : x.Roomy m) (hn : Next sort x m x') :
    x'.InOrder := by
  cases m with
  | receive socket rxTime bytes =>
    obtain ⟨server, hread, hn⟩ := bind_eq_ok.1 hn
    obtain rfl := Except.ok.inj hn
    exact h.withServer _ (published_read hread)
  | receiveFinished => exact h.receiveFinished hn
  | sequence => exact Except.ok.inj hn ▸ h.sequence hroom
  | engine => exact h.engineStep hroom hn
  | send => exact h.send hn
  | marketDataPublisher =>
    obtain ⟨threads, hthreads, hn⟩ := bind_eq_ok.1 hn
    obtain rfl := Except.ok.inj hn
    exact h.reader (.inr rfl) hthreads

/-! ## What a run amounts to -/

/-- Nothing is on its way between the threads. -/
structure AtRest (x : LiveExchange) : Prop where
  publishing : x.publishing = []
  requests : x.requests.Empty
  sending : x.threads.sending = []
  responses : x.threads.responses.Empty
  updates : x.threads.updates.Empty

/-- **The state is one of the engine alone**, on the first of the requests that were sequenced, and
its readers have what it sent first. -/
structure History (x : LiveExchange) : Prop where
  sequenced : x.requests.taken <+: x.server.published
  engine : MatchingEngine.init.processAll x.requests.taken =
    .ok (x.threads.engine, x.threads.sent)
  responses : x.threads.responses.taken <+: clientResponses x.threads.sent
  updates : x.threads.updates.taken <+: marketUpdates x.threads.sent
  atRest : x.AtRest → x.requests.taken = x.server.published ∧
    x.threads.responses.taken = clientResponses x.threads.sent ∧
    x.threads.updates.taken = marketUpdates x.threads.sent

theorem InOrder.history (h : x.InOrder) : x.History := by
  have hsequenced := h.sequenced.all
  have hresponses := h.threads.responsesSent
  have hupdates := h.threads.updatesSent
  refine ⟨?_, h.engine, ?_, ?_, fun hrest => ⟨?_, ?_, ?_⟩⟩
  · rw [hsequenced, h.requests.taken]
    exact (List.take_prefix _ _).trans (List.prefix_append _ _)
  · rw [hresponses, h.threads.responses.taken]
    exact (List.take_prefix _ _).trans (List.prefix_append _ _)
  · rw [hupdates, h.threads.updates.taken]
    exact (List.take_prefix _ _).trans (List.prefix_append _ _)
  · rw [h.requests.taken_of_empty hrest.requests, hsequenced, QueueRun.pending,
      hrest.publishing]
    simp
  · rw [h.threads.responses.taken_of_empty hrest.responses, hresponses, EngineThreads.unsent,
      hrest.sending]
    simp
  · rw [h.threads.updates.taken_of_empty hrest.updates, hupdates, EngineThreads.unsent,
      hrest.sending]
    simp

/-- The invariant, wherever a run gets to. -/
theorem inOrder_of_run {moves : List Move} (hroom : Along (Next sort) Roomy {} moves)
    (hrun : ({} : LiveExchange).run sort moves = .ok x) : x.InOrder :=
  hroom.inv_of_foldlM InOrder (fun _ _ _ hn => hn) (fun _ _ _ h hr hn => h.step hr hn)
    inOrder_start hrun

/-- **The exchange is one machine.**  However its threads are interleaved, as long as no ring fills
up, a run gets to nothing the engine alone does not get to on the requests as they were sequenced,
and what its readers have is what the engine sent, from the first on and in its order. -/
theorem history_of_run {moves : List Move} (hroom : Along (Next sort) Roomy {} moves)
    (hrun : ({} : LiveExchange).run sort moves = .ok x) : x.History :=
  (inOrder_of_run hroom hrun).history

/-! ### Short runs -/

/-- What has been written to the rings. -/
def emittedCount (x : LiveExchange) : Nat :=
  x.requests.emitted.length + x.threads.responses.emitted.length + x.threads.updates.emitted.length

/-- At most one element more, and rings of the same size. -/
structure OneMore (x x' : LiveExchange) : Prop where
  emitted : x'.emittedCount ≤ x.emittedCount + 1
  requests : x'.requests.queue.capacity = x.requests.queue.capacity
  responses : x'.threads.responses.queue.capacity = x.threads.responses.queue.capacity
  updates : x'.threads.updates.queue.capacity = x.threads.updates.queue.capacity

theorem oneMore_refl (x : LiveExchange) : x.OneMore x := ⟨Nat.le_succ _, rfl, rfl, rfl⟩

/-- The threads go on, and the request queue is read at most. -/
theorem oneMore_threads {a : Access} {threads : EngineThreads}
    (hn : x.threads.Next a threads) {requests : QueueRun MEClientRequest}
    (hemitted : requests.emitted = x.requests.emitted)
    (hcap : requests.queue.capacity = x.requests.queue.capacity) :
    x.OneMore { x with requests := requests, threads := threads } := by
  obtain ⟨hlen, hresponses, hupdates⟩ := EngineThreads.emitted_next hn
  refine ⟨?_, hcap, hresponses, hupdates⟩
  rw [emittedCount, emittedCount]
  dsimp only
  rw [hemitted]
  omega

theorem oneMore_sequence (x : LiveExchange) : x.OneMore x.sequenceStep := by
  rw [sequenceStep]
  split
  · exact oneMore_refl x
  · next r rest _ =>
    obtain ⟨hlen, hcap⟩ := x.requests.writerStep_emitted r
    refine { oneMore_refl x with emitted := ?_, requests := hcap }
    rw [emittedCount, emittedCount]
    dsimp only
    omega

theorem oneMore_engine (hn : x.engineStep = .ok x') : x.OneMore x' := by
  cases engineAccess hn with
  | process hs hr hthreads hrequests =>
    obtain ⟨-, hemitted, hcap⟩ := QueueRun.readerStep_frame hrequests
    exact oneMore_threads (a := .engine _) hthreads hemitted hcap
  | look hs hother hrequests =>
    obtain ⟨-, hemitted, hcap⟩ := QueueRun.readerStep_frame hrequests
    refine { oneMore_refl x with emitted := ?_, requests := hcap }
    rw [emittedCount, emittedCount]
    dsimp only
    rw [hemitted]
    omega
  | write hs hthreads => exact oneMore_threads (a := .engine _) hthreads rfl rfl

theorem oneMore_send (hn : x.sendStep sort = .ok x') : x.OneMore x' := by
  cases sendAccess hn with
  | respond hr hserver hthreads =>
    have hmore := oneMore_threads hthreads (Eq.refl x.requests.emitted) rfl
    exact ⟨hmore.emitted, hmore.requests, hmore.responses, hmore.updates⟩
  | look hother hthreads => exact oneMore_threads hthreads rfl rfl

theorem oneMore_step {m : Move} (hn : Next sort x m x') : x.OneMore x' := by
  cases m with
  | receive socket rxTime bytes =>
    obtain ⟨server, -, hn⟩ := bind_eq_ok.1 hn
    obtain rfl := Except.ok.inj hn
    exact { oneMore_refl x with }
  | receiveFinished =>
    obtain ⟨server, -, hn⟩ := bind_eq_ok.1 hn
    obtain rfl := Except.ok.inj hn
    exact { oneMore_refl x with }
  | sequence =>
    obtain rfl := Except.ok.inj hn
    exact oneMore_sequence x
  | engine => exact oneMore_engine hn
  | send => exact oneMore_send hn
  | marketDataPublisher =>
    obtain ⟨threads, ht, hn⟩ := bind_eq_ok.1 hn
    obtain rfl := Except.ok.inj hn
    exact oneMore_threads ht rfl rfl

/-- A run of fewer moves than each ring has slots finds room. -/
theorem along_roomy (moves : List Move) {x : LiveExchange} {n : Nat}
    (hn : x.emittedCount + moves.length < n)
    (hcap : n ≤ x.requests.queue.capacity ∧ n ≤ x.threads.responses.queue.capacity ∧
      n ≤ x.threads.updates.queue.capacity) : Along (Next sort) Roomy x moves := by
  obtain ⟨hrequests, hresponses, hupdates⟩ := hcap
  induction moves generalizing x with
  | nil => trivial
  | cons m moves ih =>
    rw [List.length_cons] at hn
    refine ⟨?_, fun x' hstep => ?_⟩
    · rw [emittedCount] at hn
      cases m with
      | sequence =>
        intro r v i _
        rw [QueueRun.unread]
        omega
      | engine =>
        intro request
        rw [EngineThreads.Roomy]
        split
        · trivial
        · intro v i _
          rw [QueueRun.unread]
          omega
        · intro v i _
          rw [QueueRun.unread]
          omega
      | _ => trivial
    · obtain ⟨hlen, hcap, hcaps, hcapu⟩ := oneMore_step hstep
      exact ih (by omega) (by omega) (by omega) (by omega)

/-- One request on its way. -/
theorem history_of_run_cancel : ∃ x : LiveExchange,
    ({} : LiveExchange).run (StableSort.stableSort RecvTimeClientRequest.time) cancelMoves = .ok x ∧
      x.requests.taken = [EngineThreads.unknownCancel] ∧ x.History := by
  have htaken : (({} : LiveExchange).run (StableSort.stableSort RecvTimeClientRequest.time)
      cancelMoves).map (fun x => x.requests.taken) = .ok [EngineThreads.unknownCancel] := by
    decide +kernel
  obtain ⟨x, hrun, hx⟩ := map_eq_ok.1 htaken
  exact ⟨x, hrun, hx, history_of_run (along_roomy (n := meMaxClientUpdates.toNat) cancelMoves
    (by decide) (by decide)) hrun⟩

end LiveExchange
end Exchange
end TradingEcosystem
