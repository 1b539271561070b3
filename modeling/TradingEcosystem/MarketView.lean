import TradingEcosystem.Exchange.ExchangeHistory
import TradingEcosystem.FeedToClient

/-!
# What the market sees of the exchange

The threads of the exchange on one side and a client's book of each ticker on the other, with the
updates `MarketDataPublisher::run` has read in between.  `Exchange.LiveExchange.History` says what
the publisher has, `MatchingEngine.processAll_forTicker` what of that is about one ticker, and
`FeedToClient.client_shows` what a client makes of it.
-/

set_option autoImplicit false

namespace TradingEcosystem
namespace MarketView

open Exchange Trading FeedToClient

/-- The updates for a ticker. -/
def updatesFor (ticker : TickerId) (updates : List MEMarketUpdate) : List MEMarketUpdate :=
  updates.filter fun u => u.tickerId = ticker

theorem updatesFor_marketUpdates (ticker : TickerId) (sent : List Sent) :
    updatesFor ticker (marketUpdates sent) =
      marketUpdates (MatchingEngine.sentFor ticker sent) := by
  rw [updatesFor, MatchingEngine.sentFor, marketUpdates, marketUpdates, List.filter_filterMap,
    List.filterMap_filter]
  refine List.filterMap_congr fun s _ => ?_
  cases s with
  | clientResponse r => exact (ite_self _).symm
  | marketUpdate u => rfl

/-- A feed that a book takes, it takes as far as it has come. -/
theorem onMarketUpdates_beginning {b c : MarketOrderBook} {updates more : List MEMarketUpdate}
    (hp : updates <+: more) (h : b.onMarketUpdates more = .ok c) :
    ∃ c', b.onMarketUpdates updates = .ok c' := by
  obtain ⟨rest, rfl⟩ := hp
  rw [MarketOrderBook.onMarketUpdates, List.foldlM_append] at h
  obtain ⟨c', hc', -⟩ := bind_eq_ok.1 h
  exact ⟨c', hc'⟩

/-- **What a client sees** of a ticker: its book takes all the publisher has read, and once nothing
is on its way it shows the exchange's. -/
structure Sees (x : LiveExchange) (ticker : TickerId) : Prop where
  takes : ∃ c, MarketOrderBook.init.onMarketUpdates
    (updatesFor ticker x.threads.updates.taken) = .ok c
  shows : x.AtRest → ∃ ring c shownRing, MarketOrderBook.init.onMarketUpdates
      (updatesFor ticker x.threads.updates.taken) = .ok c ∧
    Shows (x.threads.engine.tickerOrderBook ticker) ring
      (MatchingEngine.sentFor ticker x.threads.sent) c shownRing

theorem sees_of_history {x : LiveExchange} (h : x.History) (ticker : TickerId) :
    Sees x ticker := by
  obtain ⟨ring, c, shownRing, hc, hshows⟩ :=
    client_shows (MatchingEngine.processAll_forTicker h.engine ticker)
  rw [← updatesFor_marketUpdates] at hc
  refine ⟨onMarketUpdates_beginning (h.updates.filter _) hc, fun hrest => ?_⟩
  obtain ⟨-, -, hupdates⟩ := h.atRest hrest
  exact ⟨ring, c, shownRing, by rw [hupdates]; exact hc, hshows⟩

/-- **A client sees the exchange**, in every state of every interleaving in which no ring fills
up. -/
theorem sees_of_run {sort : List RecvTimeClientRequest → List RecvTimeClientRequest}
    {x : LiveExchange} {moves : List Move}
    (hroom : Run.Along (LiveExchange.Next sort) LiveExchange.Roomy {} moves)
    (hrun : ({} : LiveExchange).run sort moves = .ok x) (ticker : TickerId) : Sees x ticker :=
  sees_of_history (LiveExchange.inOrder_of_run hroom hrun).history ticker

/-- An order for 3 at 10. -/
def newRequest : MEClientRequest where
  requestType := .new
  clientId := 1
  tickerId := 0
  orderId := 5
  side := .buy
  price := 10
  qty := 3

/-- The order from its socket to `MarketDataPublisher::run`. -/
def newMoves : List Move :=
  [.receive 7 3 (omClientRequestCodec.encode ⟨1, newRequest⟩), .receiveFinished] ++
    List.replicate 5 .sequence ++ List.replicate 16 .engine ++
    List.replicate 5 .marketDataPublisher

theorem sees_of_run_new : ∃ x : LiveExchange,
    ({} : LiveExchange).run (StableSort.stableSort RecvTimeClientRequest.time) newMoves = .ok x ∧
      x.threads.updates.taken.map MEMarketUpdate.type = [.add] ∧ ∀ ticker, Sees x ticker := by
  have htaken : (({} : LiveExchange).run (StableSort.stableSort RecvTimeClientRequest.time)
      newMoves).map (fun x => x.threads.updates.taken.map MEMarketUpdate.type) = .ok [.add] := by
    decide +kernel
  obtain ⟨x, hrun, hx⟩ := map_eq_ok.1 htaken
  exact ⟨x, hrun, hx, fun ticker => sees_of_run (LiveExchange.along_roomy
    (n := meMaxClientUpdates.toNat) newMoves (by decide) (by decide)) hrun ticker⟩

end MarketView
end TradingEcosystem
