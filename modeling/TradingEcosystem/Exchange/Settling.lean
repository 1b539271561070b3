import TradingEcosystem.Common.QueueProgress
import TradingEcosystem.Exchange.ExchangeHistory
import TradingEcosystem.Lib.History
import TradingEcosystem.Lib.Rounds

/-!
# The exchange settles

Nothing that was sequenced is left lying.  The threads of the exchange look at their queues for
ever, but they do something in a bounded number of their accesses only: five for each element a
queue takes and five for each it gives, of which there is one request, one response and one update at
most for every request that was sequenced (`InOrder.accesses_le`).  And in a round in which each
thread has six turns, one of them does something, or everything is done (`InOrder.round`).

So any schedule settles that goes through more rounds than there are accesses left to make
(`settled_of_rounds`), in whatever order the turns come within the rounds.
-/

set_option autoImplicit false

namespace TradingEcosystem
namespace Exchange

open Run History StableSort

/-! ## What is sent for the requests -/

/-- One response and one update at most. -/
theorem MEOrderBook.Processed.length_le {b b' : MEOrderBook} {ring : Nat → List Ptr}
    {req : MEClientRequest} {sent : List Sent} (h : Processed b ring req b' sent) :
    (clientResponses sent).length ≤ 1 ∧ (marketUpdates sent).length ≤ 1 := by
  cases h <;> simp [clientResponses, marketUpdates]

namespace MatchingEngine

/-- The books are rings, and there were no more messages of a kind than requests. -/
structure AtMostOneEach (reqs : List MEClientRequest) (x : MatchingEngine × List Sent) : Prop where
  slots : ∀ t, ∃ ring, MEOrderBook.Slots (x.1.tickerOrderBook t) ring
  responses : (clientResponses x.2).length ≤ reqs.length
  updates : (marketUpdates x.2).length ≤ reqs.length

theorem AtMostOneEach.next {reqs : List MEClientRequest} {x x' : MatchingEngine × List Sent}
    {req : MEClientRequest} (h : AtMostOneEach reqs x) (hn : processAfter x req = .ok x') :
    AtMostOneEach (reqs ++ [req]) x' := by
  obtain ⟨b, sent, hb, rfl, hslots⟩ := processAfter_eq_ok hn
  obtain ⟨ring, hring⟩ := h.slots req.tickerId
  obtain ⟨hresponses, hupdates⟩ := (MEOrderBook.processed_of_eq_ok hring hb).length_le
  have hr := h.responses
  have hu := h.updates
  refine ⟨hslots h.slots, ?_, ?_⟩
  · rw [clientResponses_append, List.length_append, List.length_append, List.length_singleton]
    omega
  · rw [marketUpdates_append, List.length_append, List.length_append, List.length_singleton]
    omega

theorem atMostOneEach_init : AtMostOneEach [] (init, []) :=
  ⟨slots_init, Nat.le_refl 0, Nat.le_refl 0⟩

theorem atMostOneEach_of_processAll {reqs : List MEClientRequest} {e : MatchingEngine}
    {sent : List Sent} (h : init.processAll reqs = .ok (e, sent)) :
    AtMostOneEach reqs (e, sent) :=
  inv_of_foldlM_past AtMostOneEach (fun _ _ _ _ hx hn => hx.next hn) reqs atMostOneEach_init h

end MatchingEngine

namespace LiveExchange

variable {sort : List RecvTimeClientRequest → List RecvTimeClientRequest} {x x' x'' : LiveExchange}

/-! ## What has been done -/

/-- The accesses that have done something, and three more a queue. -/
def accesses (x : LiveExchange) : Nat :=
  (x.requests.writes + x.requests.reads) +
    (x.threads.responses.writes + x.threads.responses.reads) +
    (x.threads.updates.writes + x.threads.updates.reads)

theorem emitted_le (h : x.InOrder) : x.requests.emitted.length ≤ x.server.published.length ∧
    x.threads.responses.emitted.length ≤ x.server.published.length ∧
    x.threads.updates.emitted.length ≤ x.server.published.length := by
  have hcount := MatchingEngine.atMostOneEach_of_processAll h.engine
  have htaken : x.requests.taken.length ≤ x.server.published.length :=
    h.history.sequenced.length_le
  have hall := congrArg List.length h.sequenced.all
  have hresponses := congrArg List.length h.threads.responsesSent
  have hupdates := congrArg List.length h.threads.updatesSent
  have hr := hcount.responses
  have hu := hcount.updates
  dsimp only at hr hu
  rw [List.length_append] at hall hresponses hupdates
  omega

/-- **There is an end to what can be done** for the requests that were sequenced. -/
theorem InOrder.accesses_le (h : x.InOrder) :
    x.accesses ≤ 30 * x.server.published.length + 24 := by
  obtain ⟨hrequests, hresponses, hupdates⟩ := emitted_le h
  have h₁ := x.requests.writes_le
  have h₂ := QueueRun.reads_le h.requests.le
  have h₃ := x.threads.responses.writes_le
  have h₄ := QueueRun.reads_le h.threads.responses.le
  have h₅ := x.threads.updates.writes_le
  have h₆ := QueueRun.reads_le h.threads.updates.le
  rw [accesses]
  omega

/-! ## One turn -/

/-- The threads between a socket and the feed. -/
inductive Thread where
  | sequencer
  | matchingEngine
  | orderServer
  | marketDataPublisher
  deriving DecidableEq

/-- The access of a thread. -/
def Thread.move : Thread → Move
  | .sequencer => .sequence
  | .matchingEngine => .engine
  | .orderServer => .send
  | .marketDataPublisher => .marketDataPublisher

/-- A turn of a thread. -/
def turn (sort : List RecvTimeClientRequest → List RecvTimeClientRequest) (x : LiveExchange)
    (t : Thread) : Except Fault LiveExchange := x.step sort t.move

/-- **Nothing is done** in these turns but looking: a thread with a turn has nothing to write. -/
structure Stands (x : LiveExchange) (turns : List Thread) (x' : LiveExchange) : Prop where
  publishing : x'.publishing = x.publishing
  sending : x'.threads.sending = x.threads.sending
  sequencer : .sequencer ∈ turns → x.publishing = []
  engine : .matchingEngine ∈ turns → x.threads.sending = []
  requests : x.requests.Stands (turns.count .matchingEngine) x'.requests
  responses : x.threads.responses.Stands (turns.count .orderServer) x'.threads.responses
  updates : x.threads.updates.Stands (turns.count .marketDataPublisher) x'.threads.updates

theorem stands_nil (x : LiveExchange) : x.Stands [] x where
  publishing := rfl
  sending := rfl
  sequencer := fun h => absurd h List.not_mem_nil
  engine := fun h => absurd h List.not_mem_nil
  requests := QueueRun.stands_refl _
  responses := QueueRun.stands_refl _
  updates := QueueRun.stands_refl _

theorem Stands.accesses {turns : List Thread} (h : x.Stands turns x') :
    x'.accesses = x.accesses := by
  rw [LiveExchange.accesses, LiveExchange.accesses, h.requests.writes, h.requests.reads,
    h.responses.writes, h.responses.reads, h.updates.writes, h.updates.reads]

theorem Stands.cons {t : Thread} {turns : List Thread} (h : x.Stands [t] x')
    (h' : x'.Stands turns x'') : x.Stands (t :: turns) x'' where
  publishing := h'.publishing.trans h.publishing
  sending := h'.sending.trans h.sending
  sequencer := fun hmem => by
    rcases List.mem_cons.1 hmem with rfl | hmem
    · exact h.sequencer List.mem_cons_self
    · exact h.publishing ▸ h'.sequencer hmem
  engine := fun hmem => by
    rcases List.mem_cons.1 hmem with rfl | hmem
    · exact h.engine List.mem_cons_self
    · exact h.sending ▸ h'.engine hmem
  requests := by
    rw [← List.singleton_append, List.count_append]
    exact h.requests.trans h'.requests
  responses := by
    rw [← List.singleton_append, List.count_append]
    exact h.responses.trans h'.responses
  updates := by
    rw [← List.singleton_append, List.count_append]
    exact h.updates.trans h'.updates

/-- A look of the engine at its requests. -/
theorem stands_engine (hs : x.threads.sending = []) {requests : QueueRun MEClientRequest}
    (h : x.requests.Stands 1 requests) :
    x.Stands [.matchingEngine] { x with requests := requests } where
  publishing := rfl
  sending := rfl
  sequencer := fun hmem => absurd hmem (by decide)
  engine := fun _ => hs
  requests := h
  responses := QueueRun.stands_refl _
  updates := QueueRun.stands_refl _

/-- A look of the order server at the responses. -/
theorem stands_orderServer (server : LiveServer) {responses : QueueRun MEClientResponse}
    (h : x.threads.responses.Stands 1 responses) :
    x.Stands [.orderServer]
      { x with server := server, threads := { x.threads with responses := responses } } where
  publishing := rfl
  sending := rfl
  sequencer := fun hmem => absurd hmem (by decide)
  engine := fun hmem => absurd hmem (by decide)
  requests := QueueRun.stands_refl _
  responses := h
  updates := QueueRun.stands_refl _

/-- A look of the publisher at the updates. -/
theorem stands_marketDataPublisher {updates : QueueRun MEMarketUpdate}
    (h : x.threads.updates.Stands 1 updates) :
    x.Stands [.marketDataPublisher] { x with threads := { x.threads with updates := updates } } where
  publishing := rfl
  sending := rfl
  sequencer := fun hmem => absurd hmem (by decide)
  engine := fun hmem => absurd hmem (by decide)
  requests := QueueRun.stands_refl _
  responses := QueueRun.stands_refl _
  updates := h

theorem sequencer_turn (x : LiveExchange) :
    x.accesses < x.sequenceStep.accesses ∨ x.Stands [.sequencer] x.sequenceStep := by
  rw [sequenceStep]
  cases hp : x.publishing with
  | nil =>
    exact .inr { stands_nil x with
      sequencer := fun _ => hp
      engine := fun hmem => absurd hmem (by decide) }
  | cons r rest =>
    refine .inl ?_
    rw [accesses, accesses]
    dsimp only
    rw [QueueRun.writes_writerStep, QueueRun.reads_writerStep]
    omega

theorem InOrder.engine_turn (h : x.InOrder) (hn : x.engineStep = .ok x') :
    x.accesses < x'.accesses ∨ x.Stands [.matchingEngine] x' := by
  cases engineAccess hn with
  | process hs hr hthreads hrequests =>
    rw [EngineThreads.engineStep, hs] at hthreads
    obtain ⟨⟨engine, sent⟩, -, hthreads⟩ := bind_eq_ok.1 hthreads
    obtain rfl := Except.ok.inj hthreads
    refine .inl ?_
    rw [accesses, accesses]
    dsimp only
    rw [QueueRun.writes_readerStep hrequests, QueueRun.reads_use hr hrequests]
    omega
  | look hs hother hrequests =>
    refine (h.requests.readerStep_reads hrequests).imp (fun hreads => ?_)
      fun hstands => stands_engine hs hstands
    rw [accesses, accesses]
    dsimp only
    rw [QueueRun.writes_readerStep hrequests, hreads]
    omega
  | write hs hthreads =>
    obtain ⟨message, rest, hcons⟩ := List.exists_cons_of_ne_nil hs
    refine .inl ?_
    rw [EngineThreads.engineStep, hcons] at hthreads
    rw [accesses, accesses]
    cases message <;> obtain rfl := Except.ok.inj hthreads <;> dsimp only <;>
      rw [QueueRun.writes_writerStep, QueueRun.reads_writerStep] <;> omega

/-- The order server does something with the responses, or looks at them. -/
theorem InOrder.orderServer_turn (h : x.InOrder) (server : LiveServer) {threads : EngineThreads}
    (hn : x.threads.step .orderServer = .ok threads) :
    x.accesses < ({ x with server := server, threads := threads } : LiveExchange).accesses ∨
      x.Stands [.orderServer] { x with server := server, threads := threads } := by
  obtain ⟨responses, hresponses, hn⟩ := bind_eq_ok.1 hn
  obtain rfl := Except.ok.inj hn
  refine (h.threads.responses.readerStep_reads hresponses).imp (fun hreads => ?_)
    fun hstands => stands_orderServer server hstands
  rw [accesses, accesses]
  dsimp only
  rw [QueueRun.writes_readerStep hresponses, hreads]
  omega

theorem InOrder.send_turn (h : x.InOrder) (hn : x.sendStep sort = .ok x') :
    x.accesses < x'.accesses ∨ x.Stands [.orderServer] x' := by
  cases sendAccess hn with
  | respond hr hserver hthreads => exact h.orderServer_turn _ hthreads
  | look hother hthreads => exact h.orderServer_turn x.server hthreads

theorem InOrder.publisher_turn (h : x.InOrder) {threads : EngineThreads}
    (hn : x.threads.step .marketDataPublisher = .ok threads) :
    x.accesses < ({ x with threads := threads } : LiveExchange).accesses ∨
      x.Stands [.marketDataPublisher] { x with threads := threads } := by
  obtain ⟨updates, hupdates, hn⟩ := bind_eq_ok.1 hn
  obtain rfl := Except.ok.inj hn
  refine (h.threads.updates.readerStep_reads hupdates).imp (fun hreads => ?_)
    fun hstands => stands_marketDataPublisher hstands
  rw [accesses, accesses]
  dsimp only
  rw [QueueRun.writes_readerStep hupdates, hreads]
  omega

/-- **One turn** does something or is a look. -/
theorem InOrder.turn (h : x.InOrder) {t : Thread} (hn : x.turn sort t = .ok x') :
    x.accesses < x'.accesses ∨ x.Stands [t] x' := by
  cases t with
  | sequencer => exact Except.ok.inj hn ▸ x.sequencer_turn
  | matchingEngine => exact h.engine_turn hn
  | orderServer => exact h.send_turn hn
  | marketDataPublisher =>
    obtain ⟨threads, hthreads, hn⟩ := bind_eq_ok.1 hn
    obtain rfl := Except.ok.inj hn
    exact h.publisher_turn hthreads

/-! ## A round -/

/-- No turn fills a ring. -/
abbrev AlongRoomy (sort : List RecvTimeClientRequest → List RecvTimeClientRequest)
    (x : LiveExchange) (turns : List Thread) : Prop :=
  Along (fun x t x' => Next sort x (Thread.move t) x') (fun x t => x.Roomy t.move) x turns

/-- **Many turns**: if none of them does anything, they were all looks. -/
theorem InOrder.turns (h : x.InOrder) {turns : List Thread} (hroom : x.AlongRoomy sort turns)
    (hrun : turns.foldlM (LiveExchange.turn sort) x = .ok x') :
    x.accesses < x'.accesses ∨ x.Stands turns x' := by
  induction turns generalizing x with
  | nil =>
    obtain rfl := Except.ok.inj hrun
    exact .inr (stands_nil x)
  | cons t turns ih =>
    rw [List.foldlM_cons] at hrun
    obtain ⟨y, hy, hrun⟩ := bind_eq_ok.1 hrun
    have hrest := ih (h.step hroom.1 hy) (hroom.2 y hy) hrun
    rcases h.turn hy with hmore | hstands
    · rcases hrest with hlt | hstands'
      · exact .inl (hmore.trans hlt)
      · exact .inl (hstands'.accesses ▸ hmore)
    · exact hrest.imp (fun hlt => hstands.accesses ▸ hlt) fun hstands' => hstands.cons hstands'

/-- A round gives each thread six turns or more, in any order. -/
def Fair (turns : List Thread) : Prop := ∀ t, 6 ≤ turns.count t

/-- **A round** does something, or everything is done. -/
theorem InOrder.round (h : x.InOrder) {turns : List Thread} (hfair : Fair turns)
    (hroom : x.AlongRoomy sort turns)
    (hrun : turns.foldlM (LiveExchange.turn sort) x = .ok x') :
    x.accesses < x'.accesses ∨ x'.AtRest := by
  refine (h.turns hroom hrun).imp_right fun hstands => ?_
  have hmem : ∀ t, t ∈ turns := fun t =>
    List.count_pos_iff.1 (Nat.lt_of_lt_of_le (by decide) (hfair t))
  have hpublishing := hstands.sequencer (hmem _)
  have hsending := hstands.engine (hmem _)
  -- the producers have nothing to write
  have hrequest := h.sequenced.serves
  rw [hpublishing] at hrequest
  have hresponse := h.threads.atResponse
  rw [EngineThreads.currentResponse, hsending] at hresponse
  have hupdate := h.threads.atUpdate
  rw [EngineThreads.currentUpdate, hsending] at hupdate
  exact {
    publishing := hstands.publishing.trans hpublishing
    requests := hstands.requests.empty (h.requests.empty_of_not_waiting hrequest.idle
      (hstands.requests.not_waiting (hfair _)))
    sending := hstands.sending.trans hsending
    responses := hstands.responses.empty (h.threads.responses.empty_of_not_waiting hresponse.idle
      (hstands.responses.not_waiting (hfair _)))
    updates := hstands.updates.empty (h.threads.updates.empty_of_not_waiting hupdate.idle
      (hstands.updates.not_waiting (hfair _))) }

/-! ## At rest -/

theorem InOrder.atRest_turn (h : x.InOrder) (hrest : x.AtRest) {t : Thread}
    (hn : x.turn sort t = .ok x') : x'.AtRest := by
  cases t with
  | sequencer =>
    obtain rfl := Except.ok.inj hn
    rw [sequenceStep, hrest.publishing]
    exact hrest
  | matchingEngine =>
    cases engineAccess hn with
    | process hs hr hthreads hrequests =>
      exact absurd hr (h.requests.not_use_of_empty hrest.requests _)
    | look hs hother hrequests =>
      exact { hrest with requests := h.requests.empty_readerStep hrest.requests hrequests }
    | write hs hthreads => exact absurd hrest.sending hs
  | orderServer =>
    cases sendAccess hn with
    | respond hr hserver hthreads =>
      exact absurd hr (h.threads.responses.not_use_of_empty hrest.responses _)
    | look hother hthreads =>
      obtain ⟨responses, hresponses, hthreads⟩ := bind_eq_ok.1 hthreads
      obtain rfl := Except.ok.inj hthreads
      exact { hrest with
        responses := h.threads.responses.empty_readerStep hrest.responses hresponses }
  | marketDataPublisher =>
    obtain ⟨threads, hthreads, hn⟩ := bind_eq_ok.1 hn
    obtain rfl := Except.ok.inj hn
    obtain ⟨updates, hupdates, hthreads⟩ := bind_eq_ok.1 hthreads
    obtain rfl := Except.ok.inj hthreads
    exact { hrest with updates := h.threads.updates.empty_readerStep hrest.updates hupdates }

/-- No thread but the order server's reader sequences anything. -/
theorem published_turn {t : Thread} (hn : x.turn sort t = .ok x') :
    x'.server.published = x.server.published := by
  cases t with
  | sequencer =>
    obtain rfl := Except.ok.inj hn
    rw [sequenceStep]
    split <;> rfl
  | matchingEngine => cases engineAccess hn <;> rfl
  | orderServer =>
    cases sendAccess hn with
    | respond hr hserver hthreads => exact published_respond hserver
    | look hother hthreads => rfl
  | marketDataPublisher =>
    obtain ⟨_, -, hn⟩ := bind_eq_ok.1 hn
    obtain rfl := Except.ok.inj hn
    rfl

/-- What turns keep. -/
structure After (x x' : LiveExchange) : Prop where
  inOrder : x'.InOrder
  published : x'.server.published = x.server.published

theorem After.turns (h : After x x') {turns : List Thread} (hroom : x'.AlongRoomy sort turns)
    (hrun : turns.foldlM (LiveExchange.turn sort) x' = .ok x'') : After x x'' :=
  hroom.inv_of_foldlM (After x) (fun _ _ _ hn => hn)
    (fun _ _ _ hx hroomy hn => ⟨hx.inOrder.step hroomy hn, (published_turn hn).trans hx.published⟩)
    h hrun

theorem After.accesses_le (h : After x x') :
    x'.accesses ≤ 30 * x.server.published.length + 24 :=
  h.published ▸ h.inOrder.accesses_le

theorem After.atRest_turns (h : After x x') {turns : List Thread}
    (hroom : x'.AlongRoomy sort turns) (hrest : x'.AtRest)
    (hrun : turns.foldlM (LiveExchange.turn sort) x' = .ok x'') : x''.AtRest :=
  (hroom.inv_of_foldlM (fun x => x.InOrder ∧ x.AtRest) (fun _ _ _ hn => hn)
    (fun _ _ _ hx hroomy hn => ⟨hx.1.step hroomy hn, hx.1.atRest_turn hx.2 hn⟩)
    ⟨h.inOrder, hrest⟩ hrun).2

/-- The accesses that are left, at most. -/
def toDo (x : LiveExchange) : Nat := 30 * x.server.published.length + 24 - x.accesses

/-- **Everything that had been sequenced is done**: the engine has processed it, and its readers
have all that it sent. -/
structure Settled (x x' : LiveExchange) : Prop where
  atRest : x'.AtRest
  engine : MatchingEngine.init.processAll x.server.published =
    .ok (x'.threads.engine, x'.threads.sent)
  responses : x'.threads.responses.taken = clientResponses x'.threads.sent
  updates : x'.threads.updates.taken = marketUpdates x'.threads.sent

theorem After.settled (h : After x x') (hrest : x'.AtRest) : Settled x x' := by
  obtain ⟨htaken, hresponses, hupdates⟩ := h.inOrder.history.atRest hrest
  refine ⟨hrest, ?_, hresponses, hupdates⟩
  rw [← h.published, ← htaken]
  exact h.inOrder.engine

/-- **The exchange settles.**  Wherever a run got to, if then the threads go round, in any order
within the rounds, for more rounds than there are accesses left, all that was sequenced is done. -/
theorem settled_of_rounds {moves : List Move} {rounds : List (List Thread)}
    (hroom : Along (Next sort) Roomy {} (moves ++ rounds.flatten.map Thread.move))
    (hrun : ({} : LiveExchange).run sort moves = .ok x)
    (hrun' : x.run sort (rounds.flatten.map Thread.move) = .ok x')
    (hfair : ∀ turns ∈ rounds, Fair turns) (hlen : x.toDo < rounds.length) : Settled x x' := by
  have hmoves : Along (Next sort) Roomy {} moves := by
    have hfirst := hroom.take moves.length
    rwa [List.take_left] at hfirst
  have hinOrder := inOrder_of_run hmoves hrun
  have hturns := (along_map Thread.move).1 (hroom.behind (fun _ _ _ hn => hn) hrun)
  have hrounds := along_and.2 ⟨hturns.rounds (f := LiveExchange.turn sort) fun _ _ _ hn => hn,
    along_of_forall_mem hfair x⟩
  rw [LiveExchange.run, List.foldlM_map] at hrun'
  have hall : rounds.foldlM (fun x turns => turns.foldlM (LiveExchange.turn sort) x) x = .ok x' :=
    (foldlM_flatten rounds x).symm.trans hrun'
  have hrest : x'.AtRest := hrounds.reaches (After x) AtRest accesses (fun _ _ _ hn => hn)
    (fun _ _ _ hy hturns hn => hy.turns hturns.1 hn) (fun _ hy => hy.accesses_le)
    (fun _ _ _ hy hturns hn hrest => hy.atRest_turns hturns.1 hrest hn)
    (fun _ _ _ hy hturns hn => hy.inOrder.round hturns.2 hturns.1 hn) ⟨hinOrder, rfl⟩ (.inr hlen)
    hall
  have hafter : After x x' := hrounds.inv_of_foldlM (After x) (fun _ _ _ hn => hn)
    (fun _ _ _ hy hturns hn => hy.turns hturns.1 hn) ⟨hinOrder, rfl⟩ hall
  exact hafter.settled hrest

/-- A new order from a client. -/
def arrivalMoves : List Move :=
  let order : MEClientRequest :=
    { requestType := .new, clientId := 1, tickerId := 0, orderId := 5, side := .buy, price := 10,
      qty := 3 }
  [.receive 7 3 (omClientRequestCodec.encode ⟨1, order⟩), .receiveFinished]

/-- The threads one after the other. -/
def turnsOfEach (n : Nat) : List Thread :=
  List.replicate n .sequencer ++ List.replicate n .matchingEngine ++ List.replicate n .orderServer ++
    List.replicate n .marketDataPublisher

theorem fair_turnsOfEach : Fair (turnsOfEach 6) := by
  intro t
  cases t <;> decide

/-- The order is accepted and on the feed. -/
theorem settled_of_rounds_arrival : ∃ x x' : LiveExchange,
    ({} : LiveExchange).run (stableSort RecvTimeClientRequest.time) arrivalMoves = .ok x ∧
      x.threads.sent.length = 0 ∧ x.toDo = 45 ∧ x'.threads.sent.length = 2 ∧ Settled x x' := by
  have hstart : (({} : LiveExchange).run (stableSort RecvTimeClientRequest.time)
      arrivalMoves).map (fun x => (x.threads.sent.length, x.toDo)) = .ok (0, 45) := by
    decide +kernel
  obtain ⟨x, hrun, hx⟩ := map_eq_ok.1 hstart
  have hend : (({} : LiveExchange).run (stableSort RecvTimeClientRequest.time)
      (arrivalMoves ++ (List.replicate 55 (turnsOfEach 6)).flatten.map Thread.move)).map
        (fun x => x.threads.sent.length) = .ok 2 := by
    decide +kernel
  obtain ⟨x', hrun', hx'⟩ := map_eq_ok.1 hend
  rw [LiveExchange.run, List.foldlM_append, ← LiveExchange.run, hrun, ok_bind] at hrun'
  obtain ⟨hsent, htoDo⟩ := Prod.mk.inj hx
  refine ⟨x, x', hrun, hsent, htoDo, hx', settled_of_rounds (along_roomy
    (n := meMaxClientUpdates.toNat) _ (by decide +kernel) (by decide)) hrun hrun' ?_ ?_⟩
  · exact fun turns hmem => List.eq_of_mem_replicate hmem ▸ fair_turnsOfEach
  · rw [htoDo, List.length_replicate]
    decide

end LiveExchange
end Exchange
end TradingEcosystem
