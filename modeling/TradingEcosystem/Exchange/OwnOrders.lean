import TradingEcosystem.Exchange.ClientOrders
import TradingEcosystem.Exchange.ExchangeHistory
import TradingEcosystem.Lib.History

/-!
# Every client is served alone

What the matching engine answers to one client, with no other client in it.  `OwnOrders` is what a
client has to remember of its own orders, and `OwnOrders.answer` the answers it can work out from
them: no order of another client, no price level and no pool.

`servedAlone_of_processAll` says that these are the answers every client gets from the engine,
whatever the other clients send in between, but for the market order ids, which count the orders of
all.  `servesAlone_of_run` says it of the exchange: what the order server reads for a client, in any
interleaving, are the first of the answers to the requests of the client that were sequenced.
-/

set_option autoImplicit false

namespace TradingEcosystem
namespace Exchange

open History

/-- What a client has to remember of an order of its own. -/
structure OwnOrder where
  side : Side
  price : Price
  qty : Qty
  deriving DecidableEq

/-- What an order that rests is to its client. -/
def OrderData.own (d : OrderData) : OwnOrder := ⟨d.side, d.price, d.qty⟩

/-- The response without the market order id. -/
def MEClientResponse.unnumbered (r : MEClientResponse) : MEClientResponse :=
  { r with markerOrderId := orderIdInvalid }

/-- The orders of a client, by ticker and by its own order ids. -/
abbrev OwnOrders := TickerId → OrderId → Option OwnOrder

namespace OwnOrders

def none : OwnOrders := fun _ _ => .none

/-- The entry of an order. -/
def set (own : OwnOrders) (t : TickerId) (k : OrderId) (v : Option OwnOrder) : OwnOrders :=
  Function.update own t (Function.update (own t) k v)

/-- The orders after a request of the client, and the answer to it. -/
def answer (own : OwnOrders) (req : MEClientRequest) : OwnOrders × List MEClientResponse :=
  let response : MEClientResponse :=
    { clientId := req.clientId, tickerId := req.tickerId, clientOrderId := req.orderId }
  match req.requestType with
  | .new =>
    -- an order without a quantity is accepted and does not rest
    (if req.qty = 0 then own
      else own.set req.tickerId req.orderId (some ⟨req.side, req.price, req.qty⟩),
      [{ response with
        type := .accepted, side := req.side, price := req.price, execQty := 0, leftQty := req.qty }])
  | .cancel =>
    if req.clientId.toNat < meMaxNumClients then
      match own req.tickerId req.orderId with
      | .none => (own, [{ response with type := .cancelRejected }])
      | some d => (own.set req.tickerId req.orderId .none, [{ response with
          type := .canceled, side := d.side, price := d.price, leftQty := d.qty }])
    else (own, [])
  | _ => (own, [])

/-- One request, with the answers so far. -/
def answerAfter (x : OwnOrders × List MEClientResponse) (req : MEClientRequest) :
    OwnOrders × List MEClientResponse :=
  ((x.1.answer req).1, x.2 ++ (x.1.answer req).2)

/-- All requests of the client. -/
def answerAll (own : OwnOrders) (reqs : List MEClientRequest) :
    OwnOrders × List MEClientResponse :=
  reqs.foldl answerAfter (own, [])

theorem set_apply (own : OwnOrders) (t t' : TickerId) (k k' : OrderId) (v : Option OwnOrder) :
    own.set t k v t' k' = if t' = t ∧ k' = k then v else own t' k' :=
  update_update_apply own t t' k k' v

/-- More requests add answers behind those there are. -/
theorem prefix_foldl_answerAfter (reqs : List MEClientRequest)
    (x : OwnOrders × List MEClientResponse) : x.2 <+: (reqs.foldl answerAfter x).2 := by
  induction reqs generalizing x with
  | nil => exact List.prefix_rfl
  | cons req reqs ih => exact (List.prefix_append _ _).trans (ih (answerAfter x req))

theorem answerAll_mono (own : OwnOrders) {reqs reqs' : List MEClientRequest} (h : reqs <+: reqs') :
    (own.answerAll reqs).2 <+: (own.answerAll reqs').2 := by
  obtain ⟨rest, rfl⟩ := h
  rw [answerAll, answerAll, List.foldl_append]
  exact prefix_foldl_answerAfter rest _

theorem answerAll_concat (own : OwnOrders) (reqs : List MEClientRequest) (req : MEClientRequest) :
    own.answerAll (reqs ++ [req]) = answerAfter (own.answerAll reqs) req := by
  rw [answerAll, List.foldl_append]
  rfl

end OwnOrders

namespace MEOrderBook

variable {b b' : MEOrderBook} {ring : Nat → List Ptr} {req : MEClientRequest} {sent : List Sent}

/-- The order a client's ids lead to. -/
def ownOrder (b : MEOrderBook) (c : ClientId) (o : OrderId) : Option OwnOrder :=
  (b.clientOrders c o).map fun p => (b.data p).own

theorem Slots.ownOrder_inserted (h : Slots b ring) {d : OrderData} (hi : Inserted b b' d)
    (c : ClientId) (o : OrderId) : b'.ownOrder c o =
      if c = d.clientId ∧ o = d.clientOrderId then some d.own else b.ownOrder c o := by
  rw [ownOrder, hi.clientOrders]
  split
  · rw [Option.map_some, hi.self]
  · refine Option.map_congr fun p hp => ?_
    have hne : p ≠ b.nextOrderPtr :=
      (h.pools.orderFrontier.lt_of_live (h.table _ _ _ hp).1).ne
    rw [hi.other p hne]

theorem Removed.ownOrder {p : Ptr} (hr : Removed b b' p) (c : ClientId) (o : OrderId) :
    b'.ownOrder c o =
      if c = (b.data p).clientId ∧ o = (b.data p).clientOrderId then none
        else b.ownOrder c o := by
  rw [MEOrderBook.ownOrder, hr.clientOrders, MEOrderBook.ownOrder]
  split
  · rfl
  · simp only [hr.data]

/-- Nothing changes for another client. -/
theorem Processed.ownOrder_of_ne (h : Slots b ring) (hp : Processed b ring req b' sent)
    {c : ClientId} (hc : c ≠ req.clientId) (o : OrderId) : b'.ownOrder c o = b.ownOrder c o := by
  cases hp with
  | empty => rfl
  | rested hn hq hi =>
    rw [h.generateNewMarketOrderId.ownOrder_inserted hi, if_neg fun hco => hc hco.1]
    rfl
  | dropped => rfl
  | missed => rfl
  | removed hn hentry hi hr =>
    rw [hr.ownOrder, if_neg fun hco => hc (hco.1.trans (h.table _ _ _ hentry).2.1)]

/-- All responses are for the client of the request. -/
theorem Processed.clientId (hp : Processed b ring req b' sent) :
    ∀ r ∈ clientResponses sent, r.clientId = req.clientId := by
  cases hp with
  | empty => simp [clientResponses, acceptedResponse]
  | rested => simp [clientResponses, acceptedResponse]
  | dropped => simp
  | missed => simp [clientResponses, cancelRejectedResponse]
  | removed => simp [clientResponses, canceledResponse]

/-- **The client of the request** gets the answer of its own orders. -/
theorem Slots.answer (h : Slots b ring) (hb : b.process req = .ok (b', sent)) {own : OwnOrders}
    (hown : ∀ o, b.ownOrder req.clientId o = own req.tickerId o) :
    (clientResponses sent).map MEClientResponse.unnumbered = (own.answer req).2 ∧
      ∀ t o, (own.answer req).1 t o =
        if t = req.tickerId then b'.ownOrder req.clientId o else own t o := by
  -- where the book of the ticker keeps its orders, nothing changes
  have hsame : ∀ t o, own t o = if t = req.tickerId then b.ownOrder req.clientId o else own t o :=
    fun t o => by
      split
      · next ht => rw [ht, hown]
      · rfl
  have hset : ∀ v, (∀ o, b'.ownOrder req.clientId o =
      if o = req.orderId then v else b.ownOrder req.clientId o) → ∀ t o,
      own.set req.tickerId req.orderId v t o =
        if t = req.tickerId then b'.ownOrder req.clientId o else own t o := fun v hv t o => by
    rw [OwnOrders.set_apply, hv]
    by_cases ht : t = req.tickerId
    · rw [ht]
      by_cases ho : o = req.orderId <;> simp [ho, hown]
    · simp [ht]
  cases processed_of_eq_ok h hb with
  | empty hn hq =>
    rw [OwnOrders.answer, hn]
    simp only [if_pos hq]
    exact ⟨rfl, hsame⟩
  | rested hn hq hi =>
    rw [OwnOrders.answer, hn]
    simp only [if_neg hq]
    refine ⟨rfl, hset _ fun o => ?_⟩
    rw [h.generateNewMarketOrderId.ownOrder_inserted hi]
    simp only [newOrder, true_and]
    rfl
  | dropped hn hc =>
    rw [OwnOrders.answer, hn]
    simp only [if_neg hc]
    exact ⟨rfl, hsame⟩
  | missed hn hentry =>
    have hc : req.clientId.toNat < meMaxNumClients := by
      by_contra hc
      rw [process_cancel_dropped hn hc] at hb
      exact absurd (Prod.mk.inj (Except.ok.inj hb)).2 (by simp)
    have hnone : own req.tickerId req.orderId = none := by
      rw [← hown, ownOrder, hentry]
      rfl
    rw [OwnOrders.answer, hn]
    simp only [if_pos hc, hnone]
    exact ⟨rfl, hsame⟩
  | @removed _ p i hn hentry hi hr =>
    obtain ⟨-, hcl, hor⟩ := h.table _ _ _ hentry
    have hc : req.clientId.toNat < meMaxNumClients := hcl ▸ (h.idsLt i p hi).1
    have hsome : own req.tickerId req.orderId = some (b.data p).own := by
      rw [← hown, ownOrder, hentry]
      rfl
    rw [OwnOrders.answer, hn]
    simp only [if_pos hc, hsome]
    refine ⟨rfl, hset _ fun o => ?_⟩
    rw [hr.ownOrder, hcl, hor]
    simp only [true_and]

end MEOrderBook

namespace MatchingEngine

open MEOrderBook

variable {e e' : MatchingEngine} {sent : List Sent} {reqs : List MEClientRequest}

/-- The requests of a client. -/
def requestsOf (c : ClientId) (reqs : List MEClientRequest) : List MEClientRequest :=
  reqs.filter fun req => req.clientId = c

/-- The responses to a client. -/
def responsesTo (c : ClientId) (sent : List Sent) : List MEClientResponse :=
  (clientResponses sent).filter fun r => r.clientId = c

/-- **The client is served alone**: the responses to it are the answers of its own orders to its own
requests, without the market order ids, and the orders its ids lead to are its own. -/
structure ServedAlone (c : ClientId) (reqs : List MEClientRequest) (e : MatchingEngine)
    (sent : List Sent) : Prop where
  responses : (responsesTo c sent).map MEClientResponse.unnumbered =
    (OwnOrders.none.answerAll (requestsOf c reqs)).2
  orders : ∀ t o, (e.tickerOrderBook t).ownOrder c o =
    (OwnOrders.none.answerAll (requestsOf c reqs)).1 t o

theorem requestsOf_concat (c : ClientId) (reqs : List MEClientRequest) (req : MEClientRequest) :
    requestsOf c (reqs ++ [req]) = requestsOf c reqs ++ if req.clientId = c then [req] else [] := by
  rw [requestsOf, List.filter_append, requestsOf]
  by_cases h : req.clientId = c <;> simp [h]

theorem responsesTo_append (c : ClientId) (sent sent' : List Sent) :
    responsesTo c (sent ++ sent') = responsesTo c sent ++ responsesTo c sent' := by
  rw [responsesTo, clientResponses_append, List.filter_append, responsesTo, responsesTo]

/-- What holds between two requests: the books are rings and every client is served alone. -/
def AllAlone (reqs : List MEClientRequest) (x : MatchingEngine × List Sent) : Prop :=
  (∀ t, ∃ ring, Slots (x.1.tickerOrderBook t) ring) ∧ ∀ c, ServedAlone c reqs x.1 x.2

theorem AllAlone.next {x x' : MatchingEngine × List Sent} {req : MEClientRequest}
    (h : AllAlone reqs x) (hn : processAfter x req = .ok x') : AllAlone (reqs ++ [req]) x' := by
  obtain ⟨e, sent⟩ := x
  obtain ⟨b, out, hb, rfl, hrings⟩ := processAfter_eq_ok hn
  obtain ⟨hslots, halone⟩ := h
  obtain ⟨ring, hring⟩ := hslots req.tickerId
  have hp := processed_of_eq_ok hring hb
  refine ⟨hrings hslots, fun c => ?_⟩
  have hbooks : ∀ t o, ((Function.update e.tickerOrderBook req.tickerId b) t).ownOrder c o =
      if t = req.tickerId then b.ownOrder c o else (e.tickerOrderBook t).ownOrder c o :=
    fun t o => by by_cases htt : t = req.tickerId <;> simp [htt]
  obtain ⟨hresponses, horders⟩ := halone c
  by_cases hc : req.clientId = c
  · subst hc
    obtain ⟨hanswer, hown⟩ := hring.answer hb (horders req.tickerId)
    have hout : responsesTo req.clientId out = clientResponses out :=
      List.filter_eq_self.2 fun r hr => decide_eq_true (hp.clientId r hr)
    have hreqs := requestsOf_concat req.clientId reqs req
    rw [if_pos rfl] at hreqs
    refine ⟨?_, fun t o => ?_⟩
    · rw [hreqs, OwnOrders.answerAll_concat, responsesTo_append, List.map_append, hresponses, hout,
        hanswer]
      rfl
    · rw [hreqs, OwnOrders.answerAll_concat, hbooks, horders]
      exact (hown t o).symm
  · have hout : responsesTo c out = [] :=
      List.filter_eq_nil_iff.2 fun r hr hrc => hc ((hp.clientId r hr).symm.trans
        (of_decide_eq_true hrc))
    have hreqs := requestsOf_concat c reqs req
    rw [if_neg hc, List.append_nil] at hreqs
    refine ⟨?_, fun t o => ?_⟩
    · rw [hreqs, responsesTo_append, hout, List.append_nil]
      exact hresponses
    · rw [hreqs, hbooks, ← horders]
      split
      · next htt => rw [htt, hp.ownOrder_of_ne hring (Ne.symm hc)]
      · rfl

theorem allAlone_init : AllAlone [] (init, []) :=
  ⟨slots_init, fun _ => ⟨rfl, fun _ _ => rfl⟩⟩

/-- **Every client is served alone**, whatever the others send in between and whatever they trade. -/
theorem servedAlone_of_processAll (h : init.processAll reqs = .ok (e, sent)) (c : ClientId) :
    ServedAlone c reqs e sent :=
  (inv_of_foldlM_past AllAlone (fun _ _ _ _ hx hn => hx.next hn) reqs allAlone_init h).2 c

end MatchingEngine

/-! ## The exchange -/

namespace LiveExchange

open Run StableSort Codec MatchingEngine

variable {sort : List RecvTimeClientRequest → List RecvTimeClientRequest} {x : LiveExchange}

/-- The responses the order server has read for a client. -/
def readFor (x : LiveExchange) (c : ClientId) : List MEClientResponse :=
  x.threads.responses.taken.filter fun r => r.clientId = c

/-- **The exchange serves the client alone.** -/
structure ServesAlone (c : ClientId) (x : LiveExchange) : Prop where
  /-- What was read for it are the first answers to its requests, as they were sequenced. -/
  responses : (x.readFor c).map MEClientResponse.unnumbered <+:
    (OwnOrders.none.answerAll (requestsOf c x.server.published)).2
  /-- With nothing on its way these are all answers, and the books have the orders of the client. -/
  atRest : x.AtRest →
    (x.readFor c).map MEClientResponse.unnumbered =
      (OwnOrders.none.answerAll (requestsOf c x.server.published)).2 ∧
    ∀ t o, (x.threads.engine.tickerOrderBook t).ownOrder c o =
      (OwnOrders.none.answerAll (requestsOf c x.server.published)).1 t o

theorem History.servesAlone (h : x.History) (c : ClientId) : ServesAlone c x := by
  obtain ⟨hresponses, horders⟩ := servedAlone_of_processAll h.engine c
  refine ⟨?_, fun hrest => ?_⟩
  · have hread : (x.readFor c).map MEClientResponse.unnumbered <+:
        (responsesTo c x.threads.sent).map MEClientResponse.unnumbered :=
      (h.responses.filter _).map _
    rw [hresponses] at hread
    exact hread.trans (OwnOrders.none.answerAll_mono (h.sequenced.filter _))
  · obtain ⟨htaken, hread, -⟩ := h.atRest hrest
    rw [← htaken, ← hresponses, readFor, hread]
    exact ⟨rfl, horders⟩

/-- **No client is in another's way.**  However the threads are interleaved and whatever the others
send, as long as no ring fills up, a client is answered as if the exchange were its own. -/
theorem servesAlone_of_run {moves : List Move} (hroom : Along (Next sort) Roomy {} moves)
    (hrun : ({} : LiveExchange).run sort moves = .ok x) (c : ClientId) : ServesAlone c x :=
  (inOrder_of_run hroom hrun).history.servesAlone c

/-- Two clients with the same order id and orders that cross, each in a round of its own. -/
def crossingMoves : List Move :=
  let order : MEClientRequest :=
    { requestType := .new, clientId := 1, tickerId := 0, orderId := 5, side := .buy, price := 10,
      qty := 3 }
  [.receive 7 3 (omClientRequestCodec.encode ⟨1, order⟩), .receiveFinished,
    .receive 8 4 (omClientRequestCodec.encode ⟨1, { order with clientId := 2, side := .sell }⟩),
    .receiveFinished] ++
    List.replicate 10 .sequence ++ List.replicate 28 .engine ++ List.replicate 14 .send

/-- The second client has its order accepted, under the second market order id. -/
theorem servesAlone_of_run_crossing : ∃ x : LiveExchange,
    ({} : LiveExchange).run (stableSort RecvTimeClientRequest.time) crossingMoves = .ok x ∧
      (x.readFor 2).map (fun r => (r.markerOrderId, r.leftQty)) = [(2, 3)] ∧ ServesAlone 2 x := by
  have hend : (({} : LiveExchange).run (stableSort RecvTimeClientRequest.time) crossingMoves).map
      (fun x => (x.readFor 2).map fun r => (r.markerOrderId, r.leftQty)) = .ok [(2, 3)] := by
    decide +kernel
  obtain ⟨x, hrun, hread⟩ := map_eq_ok.1 hend
  exact ⟨x, hrun, hread, servesAlone_of_run (along_roomy (n := meMaxClientUpdates.toNat)
    crossingMoves (by decide) (by decide)) hrun 2⟩

end LiveExchange
end Exchange
end TradingEcosystem
