import TradingEcosystem.SessionLedger
import TradingEcosystem.Exchange.ExchangeHistory

/-!
# The exchange from bytes to bytes

All threads of the exchange with the sockets at both ends.  In every interleaving of their accesses
in which no ring fills up, the order server has a ledger (`LedgerRun.Balanced`), the engine has
processed some of the requests in it, and the responses in it are the first of those the engine
gave.  `Wired` puts this together: what is on the sockets is accounted for by what came in on them.

The events of the order server are read off the moves (`Wired.step`): an access of its loop is an
event when it uses the element it read.
-/

set_option autoImplicit false

namespace TradingEcosystem
namespace Exchange

open Codec StableSort Run History

/-- The bytes that come on a socket. -/
def Move.bytesOn (socket : Socket) : Move → List UInt8
  | .receive x _ bytes => if x = socket then bytes else []
  | .receiveFinished => []
  | .sequence => []
  | .engine => []
  | .send => []
  | .marketDataPublisher => []

namespace LiveExchange

variable (sort : List RecvTimeClientRequest → List RecvTimeClientRequest)

/-- The order server of the exchange, as it is by itself: it has had the bytes of the moves, and
`run` has sent the responses it took. -/
structure Serves (moves : List Move) (x : LiveExchange) (events : List ServerEvent)
    (ledger : List LedgerEntry) : Prop where
  run : ({} : LedgerRun).run sort events = .ok ⟨x.server, ledger⟩
  bytes : ∀ socket, events.flatMap (ServerEvent.bytesOn socket) =
    moves.flatMap (Move.bytesOn socket)
  responses : events.flatMap ServerEvent.responses = x.threads.responses.taken

variable {sort} {moves : List Move} {x x' : LiveExchange} {events : List ServerEvent}
  {ledger : List LedgerEntry}

/-- A move that is an event of the server. -/
theorem Serves.event (h : Serves sort moves x events ledger) {e : ServerEvent} {m : Move}
    (hn : x.server.step sort e = .ok x'.server)
    (hbytes : ∀ socket, e.bytesOn socket = m.bytesOn socket)
    (htaken : x'.threads.responses.taken = x.threads.responses.taken ++ e.responses) :
    Serves sort (moves ++ [m]) x' (events ++ [e]) (ledger ++ x.server.entries e) where
  run := by
    have hrun := h.run
    rw [LedgerRun.run] at hrun ⊢
    rw [List.foldlM_append, hrun, ok_bind, List.foldlM_cons, LedgerRun.step, hn]
    rfl
  bytes := fun socket => by
    rw [List.flatMap_append, List.flatMap_append, h.bytes, List.flatMap_singleton,
      List.flatMap_singleton, hbytes]
  responses := by
    rw [List.flatMap_append, h.responses, List.flatMap_singleton, htaken]

/-- Any other move. -/
theorem Serves.move (h : Serves sort moves x events ledger) {m : Move}
    (hserver : x'.server = x.server) (hbytes : ∀ socket, m.bytesOn socket = [])
    (htaken : x'.threads.responses.taken = x.threads.responses.taken) :
    Serves sort (moves ++ [m]) x' events ledger where
  run := hserver ▸ h.run
  bytes := fun socket => by
    rw [List.flatMap_append, List.flatMap_singleton, hbytes, List.append_nil, h.bytes]
  responses := by rw [h.responses, htaken]

/-- The engine takes no response off its queue. -/
theorem taken_engineStep {t t' : EngineThreads} {request : MEClientRequest}
    (h : t.engineStep request = .ok t') : t'.responses.taken = t.responses.taken := by
  rw [EngineThreads.engineStep] at h
  split at h
  · obtain ⟨_, -, h⟩ := bind_eq_ok.1 h
    obtain rfl := Except.ok.inj h
    rfl
  · obtain rfl := Except.ok.inj h
    exact QueueRun.writerStep_taken _ _
  · obtain rfl := Except.ok.inj h
    rfl

theorem Serves.engine (h : Serves sort moves x events ledger) (hn : x.engineStep = .ok x') :
    Serves sort (moves ++ [.engine]) x' events ledger := by
  cases engineAccess hn with
  | process hs hr hthreads hrequests =>
    exact h.move rfl (fun _ => rfl) (taken_engineStep hthreads)
  | look hs hother hrequests => exact h.move rfl (fun _ => rfl) rfl
  | write hs hthreads => exact h.move rfl (fun _ => rfl) (taken_engineStep hthreads)

/-- The order server reads its queue, and sends what it took. -/
theorem Serves.send (h : Serves sort moves x events ledger) (hn : x.sendStep sort = .ok x') :
    ∃ events' ledger', Serves sort (moves ++ [.send]) x' events' ledger' := by
  cases sendAccess hn with
  | respond hr hserver hthreads =>
    obtain ⟨q, hq, hthreads⟩ := bind_eq_ok.1 hthreads
    obtain rfl := Except.ok.inj hthreads
    refine ⟨_, _, h.event hserver (fun _ => rfl) ?_⟩
    rcases QueueRun.readerStep_taken hq with ⟨j, hj, htaken⟩ | ⟨hnone, -⟩
    · obtain rfl := ReaderPc.use.inj (hr.symm.trans hj)
      exact htaken
    · exact absurd hr (hnone _)
  | look hother hthreads =>
    obtain ⟨q, hq, hthreads⟩ := bind_eq_ok.1 hthreads
    obtain rfl := Except.ok.inj hthreads
    refine ⟨_, _, h.move rfl (fun _ => rfl) ?_⟩
    rcases QueueRun.readerStep_taken hq with ⟨i, hi, -⟩ | ⟨-, htaken⟩
    · exact absurd hi (hother i)
    · exact htaken

/-- **One move.** -/
theorem Serves.step (h : Serves sort moves x events ledger) {m : Move}
    (hn : x.step sort m = .ok x') :
    ∃ events' ledger', Serves sort (moves ++ [m]) x' events' ledger' := by
  cases m with
  | receive socket rxTime bytes =>
    obtain ⟨server, hread, hn⟩ := bind_eq_ok.1 hn
    obtain rfl := Except.ok.inj hn
    exact ⟨_, _, h.event hread (fun _ => rfl) (List.append_nil _).symm⟩
  | receiveFinished =>
    obtain ⟨server, hfinished, hn⟩ := bind_eq_ok.1 hn
    obtain rfl := Except.ok.inj hn
    exact ⟨_, _, h.event hfinished (fun _ => rfl) (List.append_nil _).symm⟩
  | sequence =>
    obtain rfl := Except.ok.inj hn
    refine ⟨_, _, h.move ?_ (fun _ => rfl) ?_⟩ <;> rw [sequenceStep] <;> split <;> rfl
  | engine => exact ⟨_, _, h.engine hn⟩
  | send => exact h.send hn
  | marketDataPublisher =>
    obtain ⟨threads, hthreads, hn⟩ := bind_eq_ok.1 hn
    obtain rfl := Except.ok.inj hn
    obtain ⟨q, -, hthreads⟩ := bind_eq_ok.1 hthreads
    obtain rfl := Except.ok.inj hthreads
    exact ⟨_, _, h.move rfl (fun _ => rfl) rfl⟩

end LiveExchange
end Exchange
end TradingEcosystem
