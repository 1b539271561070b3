import TradingEcosystem.Common.LFQueue
import TradingEcosystem.Exchange.MatchingEngine

/-!
# The engine and its two queues

`MatchingEngine::run` with the threads behind it: `sendClientResponse` and `sendMarketUpdate` write
to one queue each, `OrderServer::run` reads the responses and `MarketDataPublisher::run` the
updates.  A run is any interleaving of the accesses of the three threads.  What the engine does
between its accesses touches only its own books, so that a request is processed in one step and
what it sends is sent in the steps that follow.

The queues have no check for a full ring.  `along_lossless_iff` says how far ahead of its consumers
the engine may be.
-/

set_option autoImplicit false

namespace TradingEcosystem
namespace Exchange

open Run

/-- The three threads. -/
structure EngineThreads where
  engine : MatchingEngine := .init
  /-- What the engine still has to send for the request it is at. -/
  sending : List Sent := []
  responses : QueueRun MEClientResponse
  updates : QueueRun MEMarketUpdate
  /-- All calls of `sendClientResponse` and `sendMarketUpdate`. -/
  sent : List Sent := []

/-- The next access is one of this thread. -/
inductive Access where
  /-- `MatchingEngine::run`, which takes this request when it is through with the last one. -/
  | engine (request : MEClientRequest)
  | orderServer
  | marketDataPublisher

namespace EngineThreads

/-- One access of the engine. -/
def engineStep (x : EngineThreads) (request : MEClientRequest) : Except Fault EngineThreads :=
  match x.sending with
  | [] => do
    let processed ← x.engine.processClientRequest request
    return { x with
      engine := processed.1
      sending := processed.2
      sent := x.sent ++ processed.2 }
  | .clientResponse r :: rest =>
    .ok { x with
      responses := x.responses.writerStep r
      sending := if x.responses.writer.isLast then rest else x.sending }
  | .marketUpdate u :: rest =>
    .ok { x with
      updates := x.updates.writerStep u
      sending := if x.updates.writer.isLast then rest else x.sending }

/-- One access. -/
def step (x : EngineThreads) : Access → Except Fault EngineThreads
  | .engine request => x.engineStep request
  | .orderServer => do
    let q ← x.responses.readerStep .size
    return { x with responses := q }
  | .marketDataPublisher => do
    let q ← x.updates.readerStep .size
    return { x with updates := q }

def Next (x : EngineThreads) (a : Access) (x' : EngineThreads) : Prop := x.step a = .ok x'

/-- New queues of these sizes. -/
def start (responses updates : UInt64) : EngineThreads where
  responses := .start responses {}
  updates := .start updates {}

/-- What the engine has called for and not yet published. -/
def unsent (x : EngineThreads) : List Sent :=
  if x.responses.writer.isLast || x.updates.writer.isLast then x.sending.tail else x.sending

/-- What the engine emitted is on its way in its order, and nothing of it is lost. -/
structure Intact (x : EngineThreads) : Prop where
  responsesSent : clientResponses x.sent = x.responses.emitted ++ clientResponses x.unsent
  updatesSent : marketUpdates x.sent = x.updates.emitted ++ marketUpdates x.unsent
  responses : x.responses.Lossless
  updates : x.updates.Lossless

/-- The access writes to no slot with an unread element, a consumer is not stopped by it, and
nothing is lost by it. -/
structure Safe (x : EngineThreads) (a : Access) : Prop where
  responsesFree : x.responses.WritesFree
  updatesFree : x.updates.WritesFree
  goesOn : (∀ request, a ≠ .engine request) → ∃ x', x.Next a x'
  intact : ∀ x', x.Next a x' → x'.Intact

/-- The condition: the engine advances the index of a queue only where at most two less than the
capacity are unread. -/
def Roomy (x : EngineThreads) : Access → Prop
  | .engine _ =>
    match x.sending with
    | [] => True
    | .clientResponse r :: _ => x.responses.HasRoom (.writer r)
    | .marketUpdate u :: _ => x.updates.HasRoom (.writer u)
  | .orderServer => True
  | .marketDataPublisher => True

/-! ## The thread of the engine -/

variable {x x' : EngineThreads}

/-- The response the engine is at. -/
def currentResponse (x : EngineThreads) : Option MEClientResponse :=
  match x.sending with
  | .clientResponse r :: _ => some r
  | _ => none

/-- The update the engine is at. -/
def currentUpdate (x : EngineThreads) : Option MEMarketUpdate :=
  match x.sending with
  | .marketUpdate u :: _ => some u
  | _ => none

/-- What holds as long as neither ring fills up. -/
structure Running (x : EngineThreads) : Prop where
  responses : x.responses.Coherent .size
  updates : x.updates.Coherent .size
  responsesSent : clientResponses x.sent = x.responses.emitted ++ clientResponses x.unsent
  updatesSent : marketUpdates x.sent = x.updates.emitted ++ marketUpdates x.unsent
  /-- The engine is in one queue at a time, with the element it is to send. -/
  atResponse : x.responses.writer.Serves x.currentResponse
  atUpdate : x.updates.writer.Serves x.currentUpdate

theorem Running.intact (h : x.Running) : x.Intact :=
  ⟨h.responsesSent, h.updatesSent, h.responses.lossless, h.updates.lossless⟩

theorem running_start {responses updates : UInt64} (hr : 0 < responses) (hu : 0 < updates) :
    (start responses updates).Running where
  responses := QueueRun.coherent_start .size hr _
  updates := QueueRun.coherent_start .size hu _
  responsesSent := rfl
  updatesSent := rfl
  atResponse := .inl rfl
  atUpdate := .inl rfl

/-- The engine is between two requests. -/
theorem Running.process (h : x.Running) (hs : x.sending = []) {request : MEClientRequest}
    (hn : x.engineStep request = .ok x') : x'.Running := by
  have hidle : x.currentResponse = none ∧ x.currentUpdate = none := by
    rw [currentResponse, currentUpdate, hs]
    exact ⟨rfl, rfl⟩
  have hresponse := (hidle.1 ▸ h.atResponse).idle
  have hupdate := (hidle.2 ▸ h.atUpdate).idle
  have hunsent : x.unsent = [] := by
    rw [unsent, hs]
    exact ite_self _
  have hr := h.responsesSent
  have hu := h.updatesSent
  rw [hunsent, clientResponses_nil, List.append_nil] at hr
  rw [hunsent, marketUpdates_nil, List.append_nil] at hu
  rw [engineStep, hs] at hn
  obtain ⟨⟨engine, sent⟩, -, hn⟩ := bind_eq_ok.1 hn
  obtain rfl := Except.ok.inj hn
  refine ⟨h.responses, h.updates, ?_, ?_, .inl hresponse, .inl hupdate⟩
  · rw [unsent, hresponse, hupdate]
    change clientResponses (x.sent ++ sent) = x.responses.emitted ++ clientResponses sent
    rw [clientResponses_append, hr]
  · rw [unsent, hresponse, hupdate]
    change marketUpdates (x.sent ++ sent) = x.updates.emitted ++ marketUpdates sent
    rw [marketUpdates_append, hu]

/-- What is unsent after an access at the first of `sending`. -/
theorem unsent_sends {last last' : Bool} (h : last = true → last' = false) (s : Sent)
    (rest : List Sent) :
    (if last' then (if last then rest else s :: rest).tail else if last then rest else s :: rest) =
      if last || last' then rest else s :: rest := by
  cases last with
  | true => rw [h rfl]; rfl
  | false => cases last' <;> rfl

/-- The responses of a state in which the engine is at one, or through with it. -/
theorem clientResponses_ite (r : MEClientResponse) (rest : List Sent) (through : Bool) :
    clientResponses (if through then rest else .clientResponse r :: rest) =
        (if through then clientResponses rest else r :: clientResponses rest) ∧
      marketUpdates (if through then rest else .clientResponse r :: rest) = marketUpdates rest := by
  cases through <;> exact ⟨rfl, rfl⟩

theorem marketUpdates_ite (u : MEMarketUpdate) (rest : List Sent) (through : Bool) :
    marketUpdates (if through then rest else .marketUpdate u :: rest) =
        (if through then marketUpdates rest else u :: marketUpdates rest) ∧
      clientResponses (if through then rest else .marketUpdate u :: rest) =
        clientResponses rest := by
  cases through <;> exact ⟨rfl, rfl⟩

/-- The engine sends a response. -/
theorem Running.sendResponse (h : x.Running) {r : MEClientResponse} {rest : List Sent}
    (hs : x.sending = .clientResponse r :: rest) (hroom : x.responses.HasRoom (.writer r)) :
    { x with
      responses := x.responses.writerStep r
      sending := if x.responses.writer.isLast then rest else x.sending :
        EngineThreads }.Running := by
  have hcurrent : x.currentResponse = some r ∧ x.currentUpdate = none := by
    rw [currentResponse, currentUpdate, hs]
    exact ⟨rfl, rfl⟩
  have hserves := hcurrent.1 ▸ h.atResponse
  have hupdate := (hcurrent.2 ▸ h.atUpdate).idle
  have hr := h.responsesSent
  have hu := h.updatesSent
  rw [unsent, hupdate, WriterPc.isLast_loadSlot, Bool.or_false, hs, List.tail_cons] at hr hu
  rw [(clientResponses_ite r rest _).1] at hr
  rw [(clientResponses_ite r rest _).2] at hu
  obtain ⟨hserves', hsent⟩ := QueueRun.writerStep_sends hserves hr
  have hlast : x.responses.writer.isLast = true →
      (x.responses.writerStep r).writer.isLast = false := fun hlast => by
    rw [(QueueRun.writerStep_of_isLast hlast r).1]
    rfl
  have hunsent : { x with
      responses := x.responses.writerStep r
      sending := if x.responses.writer.isLast then rest else x.sending : EngineThreads }.unsent =
        if x.responses.writer.isLast || (x.responses.writerStep r).writer.isLast then rest
        else .clientResponse r :: rest := by
    rw [unsent, hupdate, hs, WriterPc.isLast_loadSlot, Bool.or_false]
    exact unsent_sends hlast _ _
  refine ⟨h.responses.writerStep r hroom, h.updates, ?_, ?_, ?_, .inl hupdate⟩
  · rw [hunsent, (clientResponses_ite r rest _).1]
    exact hsent
  · rw [hunsent, (clientResponses_ite r rest _).2]
    exact hu
  · rw [currentResponse, hs]
    cases hpc : x.responses.writer.isLast with
    | true => exact .inl (QueueRun.writerStep_of_isLast hpc r).1
    | false =>
      rw [hpc] at hserves'
      exact hserves'

/-- The engine sends an update. -/
theorem Running.sendUpdate (h : x.Running) {u : MEMarketUpdate} {rest : List Sent}
    (hs : x.sending = .marketUpdate u :: rest) (hroom : x.updates.HasRoom (.writer u)) :
    { x with
      updates := x.updates.writerStep u
      sending := if x.updates.writer.isLast then rest else x.sending : EngineThreads }.Running := by
  have hcurrent : x.currentResponse = none ∧ x.currentUpdate = some u := by
    rw [currentResponse, currentUpdate, hs]
    exact ⟨rfl, rfl⟩
  have hserves := hcurrent.2 ▸ h.atUpdate
  have hresponse := (hcurrent.1 ▸ h.atResponse).idle
  have hr := h.responsesSent
  have hu := h.updatesSent
  rw [unsent, hresponse, WriterPc.isLast_loadSlot, Bool.false_or, hs, List.tail_cons] at hr hu
  rw [(marketUpdates_ite u rest _).2] at hr
  rw [(marketUpdates_ite u rest _).1] at hu
  obtain ⟨hserves', hsent⟩ := QueueRun.writerStep_sends hserves hu
  have hlast : x.updates.writer.isLast = true →
      (x.updates.writerStep u).writer.isLast = false := fun hlast => by
    rw [(QueueRun.writerStep_of_isLast hlast u).1]
    rfl
  have hunsent : { x with
      updates := x.updates.writerStep u
      sending := if x.updates.writer.isLast then rest else x.sending : EngineThreads }.unsent =
        if x.updates.writer.isLast || (x.updates.writerStep u).writer.isLast then rest
        else .marketUpdate u :: rest := by
    rw [unsent, hresponse, hs, WriterPc.isLast_loadSlot, Bool.false_or]
    exact unsent_sends hlast _ _
  refine ⟨h.responses, h.updates.writerStep u hroom, ?_, ?_, .inl hresponse, ?_⟩
  · rw [hunsent, (marketUpdates_ite u rest _).2]
    exact hr
  · rw [hunsent, (marketUpdates_ite u rest _).1]
    exact hsent
  · rw [currentUpdate, hs]
    cases hpc : x.updates.writer.isLast with
    | true => exact .inl (QueueRun.writerStep_of_isLast hpc u).1
    | false =>
      rw [hpc] at hserves'
      exact hserves'

/-! ## All three threads -/

theorem Running.next (h : x.Running) {a : Access} (hroom : x.Roomy a) (hn : x.Next a x') :
    x'.Running := by
  cases a with
  | engine request =>
    rw [Roomy] at hroom
    rw [Next, step] at hn
    cases hs : x.sending with
    | nil => exact h.process hs hn
    | cons s rest =>
      rw [engineStep, hs] at hn
      rw [hs] at hroom
      cases s with
      | clientResponse r =>
        obtain rfl := Except.ok.inj hn
        exact hs ▸ h.sendResponse hs hroom
      | marketUpdate u =>
        obtain rfl := Except.ok.inj hn
        exact hs ▸ h.sendUpdate hs hroom
  | orderServer =>
    obtain ⟨q, hq, hn⟩ := bind_eq_ok.1 hn
    obtain rfl := Except.ok.inj hn
    obtain ⟨hwriter, hemitted, -⟩ := QueueRun.readerStep_frame hq
    have hunsent : { x with responses := q : EngineThreads }.unsent = x.unsent := by
      rw [unsent, unsent, hwriter]
    refine ⟨h.responses.readerStep hq, h.updates, ?_, ?_, ?_, h.atUpdate⟩
    · rw [hunsent]
      exact hemitted ▸ h.responsesSent
    · rw [hunsent]
      exact h.updatesSent
    · exact hwriter ▸ h.atResponse
  | marketDataPublisher =>
    obtain ⟨q, hq, hn⟩ := bind_eq_ok.1 hn
    obtain rfl := Except.ok.inj hn
    obtain ⟨hwriter, hemitted, -⟩ := QueueRun.readerStep_frame hq
    have hunsent : { x with updates := q : EngineThreads }.unsent = x.unsent := by
      rw [unsent, unsent, hwriter]
    refine ⟨h.responses, h.updates.readerStep hq, ?_, ?_, h.atResponse, ?_⟩
    · rw [hunsent]
      exact h.responsesSent
    · rw [hunsent]
      exact hemitted ▸ h.updatesSent
    · exact hwriter ▸ h.atUpdate

/-- **One access is safe** exactly when it does not fill a ring. -/
theorem Running.safe_iff (h : x.Running) (a : Access) : x.Safe a ↔ x.Roomy a := by
  refine ⟨fun hsafe => ?_, fun hroom => ⟨h.responses.writesFree, h.updates.writesFree, ?_,
    fun x' hn => (h.next hroom hn).intact⟩⟩
  · cases a with
    | engine request =>
      rw [Roomy]
      cases hs : x.sending with
      | nil => trivial
      | cons s rest =>
        cases s with
        | clientResponse r =>
          have hstep : x.Next (.engine request) { x with
              responses := x.responses.writerStep r
              sending := if x.responses.writer.isLast then rest else x.sending } := by
            rw [Next, step, engineStep, hs]
          exact (h.responses.writer_lossless_iff r).1 (hsafe.intact _ hstep).responses
        | marketUpdate u =>
          have hstep : x.Next (.engine request) { x with
              updates := x.updates.writerStep u
              sending := if x.updates.writer.isLast then rest else x.sending } := by
            rw [Next, step, engineStep, hs]
          exact (h.updates.writer_lossless_iff u).1 (hsafe.intact _ hstep).updates
    | orderServer => trivial
    | marketDataPublisher => trivial
  · intro hreader
    cases a with
    | engine request => exact absurd rfl (hreader request)
    | orderServer =>
      obtain ⟨q, hq⟩ := h.responses.reader_ok
      exact ⟨{ x with responses := q }, bind_eq_ok.2 ⟨q, hq, rfl⟩⟩
    | marketDataPublisher =>
      obtain ⟨q, hq⟩ := h.updates.reader_ok
      exact ⟨{ x with updates := q }, bind_eq_ok.2 ⟨q, hq, rfl⟩⟩

/-- **Nothing is lost between the threads** exactly in the runs in which the engine never gets a
whole capacity ahead of a consumer. -/
theorem along_safe_iff {responses updates : UInt64} (hr : 0 < responses) (hu : 0 < updates)
    (accesses : List Access) : Along Next Safe (start responses updates) accesses ↔
      Along Next Roomy (start responses updates) accesses :=
  along_congr Running (fun _ _ => True) (fun _ a h _ => h.safe_iff a)
    (fun _ _ _ h _ hroom hn => h.next hroom hn) (running_start hr hu)
    (along_of_forall (fun _ _ => trivial) _ _)

/-! ### A consumer that keeps up -/

theorem emitted_next {a : Access} (hn : x.Next a x') :
    x'.responses.emitted.length + x'.updates.emitted.length ≤
        x.responses.emitted.length + x.updates.emitted.length + 1 ∧
      x'.responses.queue.capacity = x.responses.queue.capacity ∧
      x'.updates.queue.capacity = x.updates.queue.capacity := by
  cases a with
  | engine request =>
    rw [Next, step, engineStep] at hn
    split at hn
    · obtain ⟨_, -, hn⟩ := bind_eq_ok.1 hn
      obtain rfl := Except.ok.inj hn
      exact ⟨Nat.le_succ _, rfl, rfl⟩
    · next r rest _ =>
      obtain rfl := Except.ok.inj hn
      obtain ⟨hlen, hcap⟩ := x.responses.writerStep_emitted r
      exact ⟨by dsimp only; omega, hcap, rfl⟩
    · next u rest _ =>
      obtain rfl := Except.ok.inj hn
      obtain ⟨hlen, hcap⟩ := x.updates.writerStep_emitted u
      exact ⟨by dsimp only; omega, rfl, hcap⟩
  | orderServer =>
    obtain ⟨q, hq, hn⟩ := bind_eq_ok.1 hn
    obtain rfl := Except.ok.inj hn
    obtain ⟨-, hemitted, hcap⟩ := QueueRun.readerStep_frame hq
    exact ⟨by dsimp only; rw [hemitted]; omega, hcap, rfl⟩
  | marketDataPublisher =>
    obtain ⟨q, hq, hn⟩ := bind_eq_ok.1 hn
    obtain rfl := Except.ok.inj hn
    obtain ⟨-, hemitted, hcap⟩ := QueueRun.readerStep_frame hq
    exact ⟨by dsimp only; rw [hemitted]; omega, rfl, hcap⟩

/-- A run of fewer accesses than the rings have slots finds room. -/
theorem along_roomy (accesses : List Access) {x : EngineThreads}
    (hr : x.responses.emitted.length + x.updates.emitted.length + accesses.length <
      x.responses.queue.capacity)
    (hu : x.responses.emitted.length + x.updates.emitted.length + accesses.length <
      x.updates.queue.capacity) : Along Next Roomy x accesses := by
  induction accesses generalizing x with
  | nil => trivial
  | cons a accesses ih =>
    rw [List.length_cons] at hr hu
    refine ⟨?_, fun x' hn => ?_⟩
    · cases a with
      | engine request =>
        rw [Roomy]
        split
        · trivial
        · intro w i _
          rw [QueueRun.unread]
          omega
        · intro w i _
          rw [QueueRun.unread]
          omega
      | orderServer => trivial
      | marketDataPublisher => trivial
    · obtain ⟨hlen, hcr, hcu⟩ := emitted_next hn
      exact ih (by omega) (by omega)

/-- A `CANCEL` for an order that does not exist. -/
def unknownCancel : MEClientRequest where
  requestType := .cancel
  clientId := 1
  tickerId := 0
  orderId := 1

/-- One response, sent and read. -/
theorem along_safe_one : Along Next Safe (start meMaxClientUpdates meMaxMarketUpdates)
    (List.replicate 6 (.engine unknownCancel) ++ List.replicate 9 .orderServer) :=
  (along_safe_iff (by decide) (by decide) _).2 (along_roomy _ (by decide) (by decide))

/-! ### A consumer that stands still -/

/-- A `NEW` order for nothing: the book accepts it and it does not rest. -/
def emptyNew : MEClientRequest where
  requestType := .new
  clientId := 1
  tickerId := 0
  orderId := 1
  side := .buy
  price := 100
  qty := 0

/-- The engine is between two requests. -/
structure Idle (x : EngineThreads) : Prop where
  book : ∃ ring, (x.engine.tickerOrderBook 0).Slots ring
  sending : x.sending = []
  writer : x.responses.writer = .loadSlot

/-- The first access for a request processes it. -/
theorem Idle.process (h : x.Idle) : ∃ engine r, (∃ ring, (engine.tickerOrderBook 0).Slots ring) ∧
    x.step (.engine emptyNew) = .ok { x with
      engine, sending := [.clientResponse r], sent := x.sent ++ [.clientResponse r] } := by
  obtain ⟨engine, sending, responses, updates, sent⟩ := x
  obtain ⟨⟨ring, hbook⟩, rfl, -⟩ := h
  dsimp only at hbook
  let b := engine.tickerOrderBook 0
  let engine' : MatchingEngine :=
    { tickerOrderBook := Function.update engine.tickerOrderBook 0 b.generateNewMarketOrderId }
  let r := MEOrderBook.acceptedResponse b.nextMarketOrderId emptyNew
  have hnew : engine.processClientRequest emptyNew = .ok (engine', [.clientResponse r]) :=
    MatchingEngine.processClientRequest_eq_ok.2
      ⟨by decide, _, MEOrderBook.process_new_zero hbook rfl rfl, rfl⟩
  refine ⟨engine', r, ⟨ring, ?_⟩, ?_⟩
  · dsimp only [engine']
    rw [Function.update_self]
    exact hbook.generateNewMarketOrderId
  · rw [step, engineStep]
    dsimp only
    rw [hnew]
    rfl

/-- Three more bring the engine to the index of the queue. -/
theorem Idle.almost (h : x.Idle) : ∃ x' v i,
    (List.replicate 4 (.engine emptyNew)).foldlM step x = .ok x' ∧
      (∃ ring, (x'.engine.tickerOrderBook 0).Slots ring) ∧
      x'.sending = [.clientResponse v] ∧ x'.responses.writer = .storeIndex v i ∧
      x'.responses.emitted = x.responses.emitted ∧
      x'.responses.advanced = x.responses.advanced ∧
      x'.responses.queue.capacity = x.responses.queue.capacity := by
  obtain ⟨engine', r, hbook, hfirst⟩ := h.process
  obtain ⟨engine, sending, ⟨queue, writer, reader, emitted, taken, advanced⟩, updates, sent⟩ := x
  obtain ⟨-, rfl, rfl⟩ := h
  refine ⟨⟨engine', [.clientResponse r], ⟨queue.write queue.nextWriteIndex r,
    .storeIndex r queue.nextWriteIndex, reader, emitted, taken, advanced⟩, updates,
    sent ++ [.clientResponse r]⟩, r, queue.nextWriteIndex, ?_, hbook, rfl, rfl, rfl, rfl, rfl⟩
  rw [List.replicate_succ, List.foldlM_cons, hfirst]
  rfl

/-- Six are a response. -/
theorem Idle.request (h : x.Idle) : ∃ x',
    (List.replicate 6 (.engine emptyNew)).foldlM step x = .ok x' ∧ x'.Idle ∧
      x'.responses.emitted.length = x.responses.emitted.length + 1 ∧
      x'.responses.advanced = x.responses.advanced ∧
      x'.responses.queue.capacity = x.responses.queue.capacity := by
  obtain ⟨y, v, i, hy, hbook, hsending, hwriter, hemitted, hadv, hcap⟩ := h.almost
  obtain ⟨engine, sending, ⟨queue, writer, reader, emitted, taken, advanced⟩, updates, sent⟩ := y
  dsimp only at hbook hsending hwriter hemitted hadv hcap
  subst hsending hwriter hemitted
  refine ⟨⟨engine, [], ⟨{ queue with
      nextWriteIndex := (i + 1) % queue.capacity
      storeSize := queue.storeSize + 1 }, .loadSlot, reader, x.responses.emitted ++ [v], taken,
    advanced⟩, updates, sent⟩, ?_, ⟨hbook, rfl, rfl⟩, List.length_append, hadv, hcap⟩
  rw [show List.replicate 6 (Access.engine emptyNew) = List.replicate 4 (.engine emptyNew)
    ++ [.engine emptyNew, .engine emptyNew] from rfl, List.foldlM_append, hy]
  rfl

/-- Request after request, with nobody reading. -/
theorem Idle.requests (n : Nat) {x : EngineThreads} (h : x.Idle) : ∃ x',
    (List.replicate (6 * n) (.engine emptyNew)).foldlM step x = .ok x' ∧ x'.Idle ∧
      x'.responses.emitted.length = x.responses.emitted.length + n ∧
      x'.responses.advanced = x.responses.advanced ∧
      x'.responses.queue.capacity = x.responses.queue.capacity := by
  induction n generalizing x with
  | zero => exact ⟨x, rfl, h, rfl, rfl, rfl⟩
  | succ n ih =>
    obtain ⟨y, hy, hidle, hlen, hadv, hcap⟩ := h.request
    obtain ⟨z, hz, hidle', hlen', hadv', hcap'⟩ := ih hidle
    refine ⟨z, ?_, hidle', ?_, hadv'.trans hadv, hcap'.trans hcap⟩
    · rw [Nat.mul_succ, Nat.add_comm, ← List.replicate_append_replicate, List.foldlM_append, hy]
      exact hz
    · rw [hlen', hlen]
      omega

/-- With one slot less than the ring has filled, the next response makes the ring look empty. -/
theorem not_along_safe_of_size {responses updates : UInt64} (hr : 0 < responses)
    (hu : 0 < updates) : ¬ ∀ accesses, Along Next Safe (start responses updates) accesses := by
  intro h
  obtain ⟨n, hn⟩ : ∃ n, responses.toNat = n + 1 :=
    Nat.exists_eq_succ_of_ne_zero (Nat.ne_of_gt (UInt64.lt_iff_toNat_lt.1 hr))
  have hstart : (start responses updates).Idle := ⟨⟨_, MEOrderBook.slots_init 0⟩, rfl, rfl⟩
  obtain ⟨x, hx, hidle, hlen, hadv, hcap⟩ := Idle.requests n hstart
  obtain ⟨y, v, i, hy, -, hsending, hwriter, hemitted, hadv', hcap'⟩ := hidle.almost
  have hroomy := (along_safe_iff hr hu _).1 (h (List.replicate (6 * n) (.engine emptyNew) ++
    List.replicate 4 (.engine emptyNew) ++ [.engine emptyNew]))
  have hrun : (List.replicate (6 * n) (Access.engine emptyNew) ++
      List.replicate 4 (Access.engine emptyNew)).foldlM step (start responses updates) =
        .ok y := by
    rw [List.foldlM_append, hx]
    exact hy
  have hlast := hroomy.of_foldlM (fun _ _ _ hn => hn) hrun
  rw [Roomy, hsending] at hlast
  have hroom := hlast v i hwriter
  have hfresh : (start responses updates).responses.advanced = 0 ∧
      (start responses updates).responses.emitted.length = 0 ∧
      (start responses updates).responses.queue.capacity = responses.toNat := ⟨rfl, rfl, rfl⟩
  rw [QueueRun.unread, hemitted, hlen, hadv', hadv, hcap', hcap] at hroom
  omega

/-- The engine answers 262144 requests before the order server reads the first answer. -/
theorem not_along_safe :
    ¬ ∀ accesses, Along Next Safe (start meMaxClientUpdates meMaxMarketUpdates) accesses :=
  not_along_safe_of_size (by decide) (by decide)

end EngineThreads
end Exchange
end TradingEcosystem
