import TradingEcosystem.Exchange.EngineQueues
import TradingEcosystem.Exchange.OrderTable
import TradingEcosystem.Lib.Routed

/-!
# One book a ticker

The matching engine is a family of books and a request goes to the book of its ticker.  So a run of
the engine is a run of each book on the requests for its ticker, whatever else comes in between, and
what the engine sends for a ticker is what that book sends.  `books_independent` is that, in both
directions: the engine stops only where one of its books does, or at a ticker it has no book for.

With `MEOrderBook.refines_orderTable` this gives the orders of a ticker as a table of its own
requests.
-/

set_option autoImplicit false

namespace TradingEcosystem
namespace Exchange

open TwoRuns

/-- The ticker a response or an update names. -/
def Sent.tickerId : Sent → TickerId
  | .clientResponse r => r.tickerId
  | .marketUpdate u => u.tickerId

/-- All that is sent for a request names its ticker. -/
theorem MEOrderBook.Processed.tickerId {b b' : MEOrderBook} {ring : Nat → List Ptr}
    {req : MEClientRequest} {sent : List Sent} (h : Processed b ring req b' sent) :
    ∀ s ∈ sent, s.tickerId = req.tickerId := by
  cases h with
  | empty => simp [Sent.tickerId, acceptedResponse]
  | rested => simp [Sent.tickerId, acceptedResponse, addUpdate, newOrder]
  | dropped => simp
  | missed => simp [Sent.tickerId, cancelRejectedResponse]
  | removed => simp [Sent.tickerId, cancelUpdate, canceledResponse]

namespace MatchingEngine

/-- One request, with what was sent so far. -/
def processAfter (x : MatchingEngine × List Sent) (req : MEClientRequest) :
    Except Fault (MatchingEngine × List Sent) := do
  let (e, sent) ← x.1.processClientRequest req
  return (e, x.2 ++ sent)

/-- All requests, and what they make the engine send. -/
def processAll (e : MatchingEngine) (reqs : List MEClientRequest) :
    Except Fault (MatchingEngine × List Sent) :=
  reqs.foldlM processAfter (e, [])

/-- The book of a ticker takes a request, if there is one. -/
def bookStep (ticker : TickerId) (b : MEOrderBook) (req : MEClientRequest) :
    Except Fault (MEOrderBook × List Sent) :=
  if ticker.toNat < meMaxTickers then b.process req else .error .badIndex

/-- A request is handed to the book of its ticker. -/
theorem processClientRequest_eq_route (e : MatchingEngine) (req : MEClientRequest) :
    e.processClientRequest req =
      (Routed.route MEClientRequest.tickerId bookStep e.tickerOrderBook req).map fun x =>
        (⟨x.1⟩, x.2) := by
  rw [processClientRequest, Routed.route, bookStep]
  split
  · cases (e.tickerOrderBook req.tickerId).process req <;> rfl
  · rfl

theorem foldlM_eq_runAfter (reqs : List MEClientRequest) (e : MatchingEngine) (sent : List Sent) :
    reqs.foldlM processAfter (e, sent) =
      (Routed.runAfter (Routed.route MEClientRequest.tickerId bookStep) (e.tickerOrderBook, sent)
        reqs).map fun x => (⟨x.1⟩, x.2) := by
  induction reqs generalizing e sent with
  | nil => rfl
  | cons req reqs ih =>
    rw [List.foldlM_cons, Routed.runAfter_cons, processAfter, Routed.take,
      processClientRequest_eq_route]
    dsimp only
    cases Routed.route MEClientRequest.tickerId bookStep e.tickerOrderBook req with
    | error f => rfl
    | ok x => exact ih ⟨x.1⟩ (sent ++ x.2)

/-- A book of rings stays one and names its ticker in all it sends. -/
theorem tagged_bookStep : Routed.Tagged MEClientRequest.tickerId bookStep Sent.tickerId
    fun _ b => ∃ ring, MEOrderBook.Slots b ring := by
  have hprocess : ∀ (req : MEClientRequest) b b' sent,
      bookStep req.tickerId b req = .ok (b', sent) → b.process req = .ok (b', sent) := by
    intro req b b' sent h
    rw [bookStep] at h
    split at h
    · exact h
    · exact absurd h (by simp)
  constructor
  · rintro req b b' sent ⟨ring, hb⟩ h
    exact (MEOrderBook.processed_of_eq_ok hb (hprocess req b b' sent h)).slots hb
  · rintro req b b' sent ⟨ring, hb⟩ h
    exact (MEOrderBook.processed_of_eq_ok hb (hprocess req b b' sent h)).tickerId

/-- The requests for a ticker. -/
def requestsFor (ticker : TickerId) (reqs : List MEClientRequest) : List MEClientRequest :=
  reqs.filter fun req => req.tickerId = ticker

/-- What is sent for a ticker. -/
def sentFor (ticker : TickerId) (sent : List Sent) : List Sent :=
  sent.filter fun s => s.tickerId = ticker

/-- The book of a ticker on requests of its own. -/
theorem runAfter_bookStep {ticker : TickerId} (h : ticker.toNat < meMaxTickers)
    (b : MEOrderBook) (reqs : List MEClientRequest) :
    Routed.runAfter (bookStep ticker) (b, []) reqs = b.processAll reqs := by
  have hstep : bookStep ticker = MEOrderBook.process := by
    funext b req
    rw [bookStep, if_pos h]
  rw [hstep]
  rfl

theorem slots_init (ticker : TickerId) :
    ∃ ring, MEOrderBook.Slots (init.tickerOrderBook ticker) ring :=
  ⟨_, MEOrderBook.slots_init ticker⟩

/-- **One request**: it is one of its book, and the books stay rings. -/
theorem processAfter_eq_ok {x x' : MatchingEngine × List Sent} {req : MEClientRequest}
    (h : processAfter x req = .ok x') : ∃ b sent,
      (x.1.tickerOrderBook req.tickerId).process req = .ok (b, sent) ∧
      x' = (⟨Function.update x.1.tickerOrderBook req.tickerId b⟩, x.2 ++ sent) ∧
      ((∀ t, ∃ ring, MEOrderBook.Slots (x.1.tickerOrderBook t) ring) →
        ∀ t, ∃ ring, MEOrderBook.Slots (x'.1.tickerOrderBook t) ring) := by
  obtain ⟨⟨e, sent⟩, hprocess, hx⟩ := bind_eq_ok.1 h
  obtain rfl := Except.ok.inj hx
  obtain ⟨-, b, hb, rfl⟩ := processClientRequest_eq_ok.1 hprocess
  refine ⟨b, sent, hb, rfl, fun hslots t => ?_⟩
  dsimp only
  by_cases ht : t = req.tickerId
  · subst ht
    obtain ⟨ring, hring⟩ := hslots req.tickerId
    rw [Function.update_self]
    exact (MEOrderBook.processed_of_eq_ok hring hb).slots hring
  · rw [Function.update_of_ne ht]
    exact hslots t

/-- A run of the engine is a run of its family of books. -/
theorem processAll_eq_ok_iff {reqs : List MEClientRequest} {e : MatchingEngine}
    {sent : List Sent} : init.processAll reqs = .ok (e, sent) ↔
      Routed.runAfter (Routed.route MEClientRequest.tickerId bookStep) (MEOrderBook.init, []) reqs =
        .ok (e.tickerOrderBook, sent) := by
  rw [processAll, foldlM_eq_runAfter]
  change Except.map _ (Routed.runAfter _ (MEOrderBook.init, []) reqs) = _ ↔ _
  cases Routed.runAfter (Routed.route MEClientRequest.tickerId bookStep)
    (MEOrderBook.init, []) reqs with
  | error f => simp [Except.map]
  | ok y =>
    constructor
    · intro h
      obtain ⟨rfl, rfl⟩ := Prod.mk.inj (Except.ok.inj h)
      rfl
    · intro h
      obtain rfl := Except.ok.inj h
      rfl

/-- A ticker without a book takes no request. -/
theorem nil_of_runAfter_bookStep {ticker : TickerId} (h : ¬ ticker.toNat < meMaxTickers)
    {b : MEOrderBook} {sent : List Sent} {reqs : List MEClientRequest} {z : MEOrderBook × List Sent}
    (hz : Routed.runAfter (bookStep ticker) (b, sent) reqs = .ok z) : reqs = [] := by
  cases reqs with
  | nil => rfl
  | cons req reqs =>
    obtain ⟨y, hy, -⟩ := Routed.runAfter_cons_eq_ok.1 hz
    obtain ⟨out, hout, -⟩ := Routed.take_eq_ok.1 hy
    rw [bookStep, if_neg h] at hout
    exact absurd hout (by simp)

/-- **A run of the engine is a run of each book** on the requests for its ticker. -/
theorem processAll_forTicker {reqs : List MEClientRequest} {e : MatchingEngine} {sent : List Sent}
    (h : init.processAll reqs = .ok (e, sent)) (ticker : TickerId) :
    (MEOrderBook.init ticker).processAll (requestsFor ticker reqs) =
      .ok (e.tickerOrderBook ticker, sentFor ticker sent) := by
  have hbook := Routed.run_route tagged_bookStep slots_init (processAll_eq_ok_iff.1 h) ticker
  by_cases ht : ticker.toNat < meMaxTickers
  · rw [List.filter_nil, runAfter_bookStep ht] at hbook
    exact hbook
  · have hempty : requestsFor ticker reqs = [] := nil_of_runAfter_bookStep ht hbook
    change Routed.runAfter _ _ (requestsFor ticker reqs) = _ at hbook
    rw [hempty] at hbook ⊢
    exact hbook

/-- **The books are independent.**  The engine returns exactly when every request names a ticker it
has a book for and every book returns on the requests for its own ticker; and then each book, and
what was sent for its ticker, are those of that run. -/
theorem books_independent (reqs : List MEClientRequest) :
    ((∃ x, init.processAll reqs = .ok x) ↔
      ∀ ticker : TickerId, (∃ x, (MEOrderBook.init ticker).processAll
        (requestsFor ticker reqs) = .ok x) ∧
          (ticker.toNat < meMaxTickers ∨ requestsFor ticker reqs = [])) ∧
    ∀ e sent, init.processAll reqs = .ok (e, sent) → ∀ ticker : TickerId,
      (MEOrderBook.init ticker).processAll (requestsFor ticker reqs) =
        .ok (e.tickerOrderBook ticker, sentFor ticker sent) := by
  have hiff := Routed.run_route_returns_iff tagged_bookStep reqs slots_init []
  refine ⟨⟨fun ⟨x, hx⟩ ticker => ?_, fun hall => ?_⟩, fun _ _ he ticker =>
    processAll_forTicker he ticker⟩
  · obtain ⟨z, hz⟩ := hiff.1 ⟨_, processAll_eq_ok_iff.1 hx⟩ ticker
    by_cases ht : ticker.toNat < meMaxTickers
    · rw [runAfter_bookStep ht] at hz
      exact ⟨⟨z, hz⟩, Or.inl ht⟩
    · have hempty : requestsFor ticker reqs = [] := nil_of_runAfter_bookStep ht hz
      rw [hempty]
      exact ⟨⟨_, rfl⟩, Or.inr rfl⟩
  · obtain ⟨y, hy⟩ := hiff.2 fun ticker => by
      obtain ⟨hbook, ht | hempty⟩ := hall ticker
      · rw [runAfter_bookStep ht]
        exact hbook
      · change ∃ z, Routed.runAfter _ _ (requestsFor ticker reqs) = _
        rw [hempty]
        exact ⟨_, rfl⟩
    exact ⟨(⟨y.1⟩, y.2), processAll_eq_ok_iff.2 hy⟩

end MatchingEngine
end Exchange
end TradingEcosystem
