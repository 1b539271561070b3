import TradingEcosystem.OrderFlowAtRest

/-!
# The order manager and the matching engine

The exchange of `OrderFlow` is what its clients may count on.  Here the matching engine takes its
place: it processes the manager's requests in order, and the requests of other clients whenever they
come in between.

`Hosts` says that the books rest exactly the open orders of a client.  What the engine does with a
request of that client is then a step of the exchange (`Hosts.own`), and what it does with any other
request is none (`Hosts.other`).  So every run of the manager against the engine is a run of the
order flow (`exists_flow`), and what holds there holds of the books.
-/

set_option autoImplicit false

namespace TradingEcosystem
namespace OrderFlow

open Exchange Exchange.MEOrderBook Trading

/-! ## What the exchange answers -/

/-- The responses among the messages of the engine that go to a client. -/
def responsesTo (clientId : ClientId) (sent : List Sent) : List MEClientResponse :=
  sent.filterMap fun
    | .clientResponse r => if r.clientId = clientId then some r else none
    | .marketUpdate _ => none

theorem responsesTo_own {c : ClientId} {a : MEClientResponse} {sent : List Sent}
    (h : a.clientId = c) :
    responsesTo c (.clientResponse a :: sent) = a :: responsesTo c sent := by
  simp [responsesTo, h]

theorem responsesTo_other {c : ClientId} {a : MEClientResponse} {sent : List Sent}
    (h : a.clientId ≠ c) : responsesTo c (.clientResponse a :: sent) = responsesTo c sent := by
  simp [responsesTo, h]

/-- The response to a request, and the open orders with it. -/
inductive Answers (r : MEClientRequest) (O : List OrderData) :
    MEClientResponse → List OrderData → Prop
  | accept (id : OrderId) (priority : Priority) (hn : r.requestType = .new) :
      Answers r O (acceptedResponse id r) (O ++ kept (orderOf r id priority))
  | cancel {o : OrderData} {before behind : List OrderData} (hn : r.requestType = .cancel)
      (ho : O = before ++ o :: behind) (hnames : Names r o) :
      Answers r O (canceledResponse r o) (before ++ behind)
  | reject (hn : r.requestType = .cancel) (hnone : ∀ o ∈ O, ¬ Names r o) :
      Answers r O (cancelRejectedResponse r) O

/-- Answering the oldest request is a step of the exchange. -/
theorem Answers.step {x : System} {r : MEClientRequest} {rest : List MEClientRequest}
    {a : MEClientResponse} {O' : List OrderData} (h : Answers r x.openOrders a O')
    (hr : x.requests = r :: rest) : Step x .exchange { x with
      requests := rest
      openOrders := O'
      responses := x.responses ++ [a] } := by
  cases h with
  | accept id priority hn => exact .accept hr hn
  | cancel hn ho hnames => exact .cancel hr hn ho hnames
  | reject hn hnone => exact .reject hr hn hnone

/-! ## One book -/

/-- The book of a ticker rests the client's open orders of that ticker, and its table of client
orders knows each of them. -/
structure BookHosts (b : MEOrderBook) (ring : Nat → List Ptr) (t : TickerId) (c : ClientId)
    (O : List OrderData) : Prop where
  slots : b.Slots ring
  tickerId : ∀ i, ∀ p ∈ ring i, (b.data p).tickerId = t
  table : ∀ i, ∀ p ∈ ring i, (b.data p).clientId = c →
    b.clientOrders c (b.data p).clientOrderId = some p
  orders : ∀ d, d.tickerId = t → (d ∈ O ↔ d.clientId = c ∧ ∃ i, d ∈ b.ordersIn ring i)

section Book

variable {b b' : MEOrderBook} {ring : Nat → List Ptr} {t : TickerId} {c : ClientId}
  {O O' : List OrderData}

theorem bookHosts_init (t : TickerId) (c : ClientId) :
    BookHosts (.init t) (fun _ => []) t c [] where
  slots := slots_init t
  tickerId := by simp
  table := by simp
  orders := by simp [ordersIn]

theorem BookHosts.congr (h : BookHosts b ring t c O)
    (hO : ∀ d, d.tickerId = t → (d ∈ O' ↔ d ∈ O)) : BookHosts b ring t c O' :=
  { h with orders := fun d hd => (hO d hd).trans (h.orders d hd) }

/-- An order of the client is found by its id. -/
theorem BookHosts.exists_of_mem (h : BookHosts b ring t c O) {d : OrderData} (hd : d ∈ O)
    (ht : d.tickerId = t) : ∃ i, ∃ p ∈ ring i, b.data p = d ∧
      b.clientOrders c d.clientOrderId = some p := by
  obtain ⟨hc, i, hi⟩ := (h.orders d ht).1 hd
  obtain ⟨p, hp, rfl⟩ := mem_ordersIn.1 hi
  exact ⟨i, p, hp, rfl, h.table i p hp hc⟩

/-- Whatever rests belongs to the book's ticker. -/
theorem BookHosts.mem_of_rests (h : BookHosts b ring t c O) {d : OrderData} (hd : b.Rests d)
    (hc : d.clientId = c) : d ∈ O ∧ d.tickerId = t := by
  obtain ⟨i, hi⟩ := h.slots.rests_iff.1 hd
  obtain ⟨p, hp, rfl⟩ := mem_ordersIn.1 hi
  have ht := h.tickerId i p hp
  exact ⟨(h.orders _ ht).2 ⟨hc, i, hi⟩, ht⟩

theorem BookHosts.generate (h : BookHosts b ring t c O) :
    BookHosts b.generateNewMarketOrderId ring t c O :=
  { h with slots := h.slots.generateNewMarketOrderId }

/-- An order rests.  If it is the client's, its id is not one of an open order. -/
theorem BookHosts.rested (h : BookHosts b ring t c O) {d : OrderData} {j : Nat}
    (hd : d.tickerId = t) (hi : Inserted b.generateNewMarketOrderId b' d)
    (hs : Slots b' (Function.update ring j (ring j ++ [b.nextOrderPtr])))
    (hfresh : d.clientId = c → ∀ o ∈ O, o.tickerId = t → o.clientOrderId ≠ d.clientOrderId)
    (hO : ∀ e, e ∈ O' ↔ e ∈ O ∨ e = d ∧ d.clientId = c) :
    BookHosts b' (Function.update ring j (ring j ++ [b.nextOrderPtr])) t c O' := by
  have hself : b'.data b.nextOrderPtr = d := hi.self
  have hold : ∀ i, ∀ p ∈ ring i, b'.data p = b.data p := fun i p hp =>
    hi.other p (h.slots.ne_fresh hp)
  refine ⟨hs, fun i p hp => ?_, fun i p hp hc => ?_, fun e he => ?_⟩
  · rcases (mem_inserted j i).1 hp with ⟨-, rfl⟩ | hp
    · rw [hself, hd]
    · rw [hold i p hp]
      exact h.tickerId i p hp
  · rw [hi.table]
    rcases (mem_inserted j i).1 hp with ⟨-, rfl⟩ | hp
    · rw [hself] at hc ⊢
      rw [← hc, Function.update_self, Function.update_self]
      rfl
    · rw [hold i p hp] at hc ⊢
      refine Eq.trans ?_ (h.table i p hp hc)
      by_cases hdc : d.clientId = c
      · -- the entry that is written is that of another id
        have hmem : b.data p ∈ O :=
          (h.orders _ (h.tickerId i p hp)).2 ⟨hc, i, mem_ordersIn.2 ⟨p, hp, rfl⟩⟩
        have hne := hfresh hdc _ hmem (h.tickerId i p hp)
        rw [hdc, Function.update_self, Function.update_of_ne hne]
        rfl
      · rw [Function.update_of_ne (Ne.symm hdc)]
        rfl
  · have hrests : (∃ i, e ∈ b'.ordersIn (Function.update ring j (ring j ++ [b.nextOrderPtr])) i) ↔
        e = d ∨ ∃ i, e ∈ b.ordersIn ring i :=
      h.slots.generateNewMarketOrderId.exists_mem_inserted hi j
    rw [hO, h.orders e he, hrests]
    refine ⟨?_, ?_⟩
    · rintro (⟨hc, hmem⟩ | ⟨rfl, hc⟩)
      · exact ⟨hc, Or.inr hmem⟩
      · exact ⟨hc, Or.inl rfl⟩
    · rintro ⟨hc, rfl | hmem⟩
      · exact Or.inr ⟨rfl, hc⟩
      · exact Or.inl ⟨hc, hmem⟩

/-- An order is taken out.  Of the client's orders only that one goes. -/
theorem BookHosts.removed (h : BookHosts b ring t c O) {i : Nat} {p : Ptr} (hp : p ∈ ring i)
    (hr : Removed b b' p) (hs : Slots b' (Function.update ring i ((ring i).erase p)))
    (hO : ∀ e, e.tickerId = t → (e ∈ O' ↔ e ∈ O ∧ e ≠ b.data p)) :
    BookHosts b' (Function.update ring i ((ring i).erase p)) t c O' := by
  have hmem := h.slots.mem_removed hp
  -- the ids of the client's orders tell them apart
  have hids : ∀ j, ∀ q ∈ ring j, (b.data q).clientId = c → (b.data p).clientId = c →
      (b.data q).clientOrderId = (b.data p).clientOrderId → q = p := by
    intro j q hq hqc hpc hid
    have htable := h.table j q hq hqc
    rw [hid, h.table i p hp hpc, Option.some_inj] at htable
    exact htable.symm
  refine ⟨hs, fun j q hq => ?_, fun j q hq hc => ?_, fun e he => ?_⟩
  · rw [hr.data]
    exact h.tickerId j q ((hmem j q).1 hq).1
  · obtain ⟨hq, hqp⟩ := (hmem j q).1 hq
    rw [hr.data] at hc ⊢
    rw [hr.table]
    refine Eq.trans ?_ (h.table j q hq hc)
    by_cases hpc : (b.data p).clientId = c
    · have hne : (b.data q).clientOrderId ≠ (b.data p).clientOrderId := fun hid =>
        hqp (hids j q hq hc hpc hid)
      rw [hpc, Function.update_self, Function.update_of_ne hne]
    · rw [Function.update_of_ne (Ne.symm hpc)]
  · rw [hO e he, h.orders e he]
    refine ⟨fun ⟨⟨hc, j, hj⟩, hne⟩ => ?_, fun ⟨hc, j, hj⟩ => ?_⟩
    · obtain ⟨q, hq, rfl⟩ := mem_ordersIn.1 hj
      refine ⟨hc, j, mem_ordersIn.2 ⟨q, (hmem j q).2 ⟨hq, ?_⟩, hr.data q⟩⟩
      rintro rfl
      exact hne rfl
    · obtain ⟨q, hq, rfl⟩ := mem_ordersIn.1 hj
      obtain ⟨hq, hqp⟩ := (hmem j q).1 hq
      rw [hr.data] at hc ⊢
      refine ⟨⟨hc, j, mem_ordersIn.2 ⟨q, hq, rfl⟩⟩, fun heq => hqp ?_⟩
      exact hids j q hq hc (heq ▸ hc) (by rw [heq])

end Book

/-! ## The engine -/

/-- The engine's books rest exactly the client's open orders. -/
structure Hosts (e : MatchingEngine) (c : ClientId) (O : List OrderData) : Prop where
  books : ∀ t : TickerId, t.toNat < meMaxTickers →
    ∃ ring, BookHosts (e.tickerOrderBook t) ring t c O
  nodup : O.Nodup
  tickerId : ∀ o ∈ O, o.tickerId.toNat < meMaxTickers

theorem hosts_init (c : ClientId) : Hosts .init c [] where
  books := fun t _ => ⟨_, bookHosts_init t c⟩
  nodup := List.nodup_nil
  tickerId := by simp

section Engine

variable {e e' : MatchingEngine} {c : ClientId} {O O' : List OrderData} {r : MEClientRequest}
  {sent : List Sent}

/-- An open order is one that rests in its book. -/
theorem Hosts.rests_iff (h : Hosts e c O) {t : TickerId} (ht : t.toNat < meMaxTickers)
    {d : OrderData} : (e.tickerOrderBook t).Rests d ∧ d.clientId = c ↔ d ∈ O ∧ d.tickerId = t := by
  obtain ⟨ring, hb⟩ := h.books t ht
  refine ⟨fun ⟨hd, hc⟩ => hb.mem_of_rests hd hc, fun ⟨hd, htick⟩ => ?_⟩
  obtain ⟨hc, i, hi⟩ := (hb.orders d htick).1 hd
  exact ⟨hb.slots.rests_iff.2 ⟨i, hi⟩, hc⟩

/-- A request changes one book and the orders of its ticker. -/
theorem Hosts.update (h : Hosts e c O) {t : TickerId} {b : MEOrderBook} {ring : Nat → List Ptr}
    (hb : BookHosts b ring t c O') (hother : ∀ d, d.tickerId ≠ t → (d ∈ O' ↔ d ∈ O))
    (hnodup : O'.Nodup) (htick : ∀ o ∈ O', o.tickerId.toNat < meMaxTickers) :
    Hosts { tickerOrderBook := Function.update e.tickerOrderBook t b } c O' where
  books := by
    intro t' ht'
    dsimp only
    by_cases htt : t' = t
    · subst htt
      rw [Function.update_self]
      exact ⟨ring, hb⟩
    · obtain ⟨ring', hb'⟩ := h.books t' ht'
      rw [Function.update_of_ne htt]
      refine ⟨ring', hb'.congr fun d hd => hother d ?_⟩
      rw [hd]
      exact htt
  nodup := hnodup
  tickerId := htick

/-- Another client's request leaves the client's orders alone and sends it nothing. -/
theorem Hosts.other (h : Hosts e c O) (hc : r.clientId ≠ c)
    (he : e.processClientRequest r = .ok (e', sent)) : responsesTo c sent = [] ∧ Hosts e' c O := by
  obtain ⟨ht, b', hb', rfl⟩ := MatchingEngine.processClientRequest_eq_ok.1 he
  obtain ⟨ring, hb⟩ := h.books r.tickerId ht
  have hsame : ∀ {b ring}, BookHosts b ring r.tickerId c O →
      Hosts { tickerOrderBook := Function.update e.tickerOrderBook r.tickerId b } c O :=
    fun hb => h.update hb (fun _ _ => Iff.rfl) h.nodup h.tickerId
  cases processed_of_eq_ok hb.slots hb' with
  | empty => exact ⟨responsesTo_other hc, hsame hb.generate⟩
  | rested hn hq hi hs =>
    refine ⟨responsesTo_other hc, hsame (hb.rested rfl hi hs ?_ ?_)⟩
    · exact fun hd => absurd hd hc
    · exact fun d => ⟨Or.inl, fun hd => hd.resolve_right fun hd => hc hd.2⟩
  | dropped => exact ⟨rfl, hsame hb⟩
  | missed => exact ⟨responsesTo_other hc, hsame hb⟩
  | removed hn hp hi hr hs =>
    refine ⟨responsesTo_other hc, hsame (hb.removed hi hr hs ?_)⟩
    -- the order that goes is the other client's
    intro d hd
    refine ⟨fun hmem => ⟨hmem, ?_⟩, And.left⟩
    rintro rfl
    exact hc ((hb.slots.table _ _ _ hp).2.1.symm.trans ((hb.orders _ hd).1 hmem).1)

/-- What is left when one order of a list without repetitions goes. -/
theorem nodup_remove {before behind : List OrderData} {d : OrderData}
    (h : (before ++ d :: behind).Nodup) : (before ++ behind).Nodup ∧
      ∀ o, o ∈ before ++ behind ↔ o ∈ before ++ d :: behind ∧ o ≠ d := by
  obtain ⟨hnot, hnodup⟩ := List.nodup_cons.1 (List.nodup_middle.1 h)
  refine ⟨hnodup, fun o => ?_⟩
  rw [List.mem_append, List.mem_append, List.mem_cons]
  refine ⟨fun ho => ⟨ho.imp_right Or.inr, ?_⟩, ?_⟩
  · rintro rfl
    exact hnot (List.mem_append.2 ho)
  · rintro ⟨ho | rfl | ho, hne⟩
    · exact Or.inl ho
    · exact absurd rfl hne
    · exact Or.inr ho

/-- **The engine is an exchange**: it answers the client's own requests. -/
theorem Hosts.own (h : Hosts e c O) (hc : r.clientId = c) (hlt : c.toNat < meMaxNumClients)
    (hfresh : r.requestType = .new → ∀ o ∈ O, ¬ Names r o)
    (he : e.processClientRequest r = .ok (e', sent)) :
    ∃ a O', Answers r O a O' ∧ responsesTo c sent = [a] ∧ Hosts e' c O' := by
  obtain ⟨ht, b', hb', rfl⟩ := MatchingEngine.processClientRequest_eq_ok.1 he
  obtain ⟨ring, hb⟩ := h.books r.tickerId ht
  have hown : ∀ {o}, o ∈ O → o.tickerId = r.tickerId → o.clientId = c := fun ho htick =>
    ((hb.orders _ htick).1 ho).1
  cases processed_of_eq_ok hb.slots hb' with
  | empty hn hq =>
    refine ⟨_, _, .accept _ 1 hn, responsesTo_own hc, ?_⟩
    have hkept : ∀ id, kept (orderOf r id 1) = [] := fun id => if_pos hq
    rw [hkept, List.append_nil]
    exact h.update hb.generate (fun _ _ => Iff.rfl) h.nodup h.tickerId
  | rested hn hq hi hs =>
    set d := (e.tickerOrderBook r.tickerId).newOrder ring r with hd
    refine ⟨_, _, .accept d.marketOrderId d.priority hn, responsesTo_own hc, ?_⟩
    have hkept : kept (orderOf r d.marketOrderId d.priority) = [d] := if_neg hq
    rw [hkept]
    have hnot : d ∉ O := fun hmem => hfresh hn d hmem ⟨rfl, rfl, rfl⟩
    have hmem : ∀ o, o ∈ O ++ [d] ↔ o ∈ O ∨ o = d := fun o => by
      rw [List.mem_append, List.mem_singleton]
    refine h.update (hb.rested rfl hi hs (fun _ o ho htick hid => ?_) fun o => ?_) (fun o ho => ?_)
      ?_ fun o ho => ?_
    · exact hfresh hn o ho ⟨htick, (hown ho htick).trans hc.symm, hid⟩
    · rw [hmem, and_iff_left (show d.clientId = c from hc)]
    · rw [hmem]
      refine or_iff_left ?_
      rintro rfl
      exact ho rfl
    · exact List.nodup_append.2 ⟨h.nodup, List.nodup_singleton d, fun o ho o' ho' heq =>
        hnot (List.mem_singleton.1 ho' ▸ heq ▸ ho)⟩
    · rcases (hmem o).1 ho with ho | rfl
      · exact h.tickerId o ho
      · exact ht
  | dropped hn hpast => exact absurd (hc ▸ hlt) hpast
  | missed hn hp =>
    refine ⟨_, _, .reject hn fun o ho hnames => ?_, responsesTo_own hc,
      h.update hb (fun _ _ => Iff.rfl) h.nodup h.tickerId⟩
    obtain ⟨_, _, -, -, htable⟩ := hb.exists_of_mem ho hnames.1
    rw [hnames.2.2, ← hc, hp] at htable
    exact absurd htable (by simp)
  | @removed _ p i hn hp hi hr hs =>
    set d := (e.tickerOrderBook r.tickerId).data p with hd
    obtain ⟨-, hdc, hdo⟩ := hb.slots.table _ _ _ hp
    have htick : d.tickerId = r.tickerId := hb.tickerId i p hi
    have hmem : d ∈ O :=
      (hb.orders d htick).2 ⟨hdc.trans hc, i, mem_ordersIn.2 ⟨p, hi, rfl⟩⟩
    obtain ⟨before, behind, rfl⟩ := List.append_of_mem hmem
    refine ⟨_, _, .cancel hn rfl ⟨htick, hdc, hdo⟩, responsesTo_own hc, ?_⟩
    obtain ⟨hnodup, hleft⟩ := nodup_remove h.nodup
    refine h.update (hb.removed hi hr hs fun o _ => hleft o) (fun o ho => ?_) hnodup
      fun o ho => h.tickerId o ((hleft o).1 ho).1
    rw [hleft]
    refine and_iff_left ?_
    rintro rfl
    exact ho htick

end Engine

/-! ## Runs of the manager against the engine -/

/-- The manager, the engine and the messages in flight, oldest first. -/
structure EngineSystem where
  manager : OrderManager
  engine : MatchingEngine := .init
  requests : List MEClientRequest := []
  responses : List MEClientResponse := []

/-- The state with the open orders in the place of the engine. -/
def EngineSystem.flow (y : EngineSystem) (O : List OrderData) : System where
  manager := y.manager
  requests := y.requests
  openOrders := O
  responses := y.responses

/-- A step of the manager, of the engine or of the wire between them. -/
inductive EngineStep (y : EngineSystem) : Event → EngineSystem → Prop where
  | move {t : TickerId} {bid ask : Price} {clip : Qty} {m : OrderManager}
      {rs : List MEClientRequest} (hm : y.manager.moveOrders t bid ask clip = .ok (m, rs)) :
      EngineStep y (.move t bid ask clip) { y with manager := m, requests := y.requests ++ rs }
  /-- The engine processes the manager's oldest request. -/
  | own {r : MEClientRequest} {rest : List MEClientRequest} {e : MatchingEngine}
      {sent : List Sent} (hr : y.requests = r :: rest)
      (he : y.engine.processClientRequest r = .ok (e, sent)) :
      EngineStep y .exchange { y with
        engine := e
        requests := rest
        responses := y.responses ++ responsesTo y.manager.clientId sent }
  /-- The engine processes a request of another client. -/
  | other {r : MEClientRequest} {e : MatchingEngine} {sent : List Sent}
      (hc : r.clientId ≠ y.manager.clientId)
      (he : y.engine.processClientRequest r = .ok (e, sent)) :
      EngineStep y .exchange { y with
        engine := e
        responses := y.responses ++ responsesTo y.manager.clientId sent }
  | deliver {r : MEClientResponse} {rest : List MEClientResponse} {m : OrderManager}
      (hr : y.responses = r :: rest) (hm : y.manager.onOrderUpdate r = .ok m) :
      EngineStep y .deliver { y with manager := m, responses := rest }

/-- The states of runs whose moves meet the condition. -/
def EngineReachable (clientId : ClientId) : EngineSystem → Prop :=
  Relation.ReflTransGen (fun y y' => ∃ e, Meets (y.flow []) e ∧ EngineStep y e y')
    { manager := { clientId } }

/-- The `NEW` the exchange looks at next has an id that no open order has. -/
theorem InSync.fresh {x : System} (h : InSync x) {r : MEClientRequest}
    {rest : List MEClientRequest} (hr : x.requests = r :: rest) (hn : r.requestType = .new) :
    ∀ o ∈ x.openOrders, ¬ Names r o := by
  rintro o ho ⟨htick, -, hid⟩
  have hside : Traded r.side := h.news r (hr ▸ List.mem_cons_self) hn
  have hslot := h.slots r.tickerId r.side hside
  have hnews : newsOf r.tickerId r.side x.requests = r :: newsOf r.tickerId r.side rest := by
    rw [hr, newsOf, List.filter_cons_of_pos (by simp [hn])]
    rfl
  have hmem : o ∈ openOf r.tickerId o.side x.openOrders :=
    List.mem_filter.2 ⟨ho, decide_eq_true ⟨htick, rfl⟩⟩
  obtain ⟨hactive, hoid⟩ := (h.slots r.tickerId o.side (h.orders o ho)).of_mem hmem
  rw [hnews] at hslot
  cases hslot with
  | idle _ hN => exact absurd hN (by simp)
  | answered _ hN => exact absurd hN (by simp)
  | working _ hN => exact absurd hN (by simp)
  | sent hstate hN hrid _ _ hO =>
    obtain ⟨rfl, -⟩ := List.cons.inj hN
    -- the slot of the request has nothing open, so the order would be the other side's
    have hsame : o.side = r.side := by
      refine h.side_eq (h.orders o ho) hside hactive (by simp [Active, hstate]) ?_
      rw [← hoid, hid, hrid]
    rw [hsame, hO] at hmem
    exact absurd hmem List.not_mem_nil

/-- **The engine refines the exchange**: a step against the engine is a step of the order flow, or
changes nothing in it. -/
theorem EngineStep.flow {y y' : EngineSystem} {ev : Event} {O : List OrderData}
    (hstep : EngineStep y ev y') (h : InSync (y.flow O))
    (hosts : Hosts y.engine y.manager.clientId O)
    (hlt : y.manager.clientId.toNat < meMaxNumClients) : y'.manager.clientId = y.manager.clientId ∧
      ∃ O', (y'.flow O' = y.flow O ∨ Step (y.flow O) ev (y'.flow O')) ∧
        Hosts y'.engine y.manager.clientId O' := by
  cases hstep with
  | move hm =>
    obtain ⟨m₁, rfl, rfl, rfl⟩ := OrderManager.moveOrders_eq_ok hm
    refine ⟨?_, O, Or.inr (.move hm), hosts⟩
    dsimp only
    rw [OrderManager.clientId_moveOrder, OrderManager.clientId_moveOrder]
  | @own r rest e sent hr he =>
    have hr' : (y.flow O).requests = r :: rest := hr
    have hc : r.clientId = y.manager.clientId := h.requestIds r (hr' ▸ List.mem_cons_self)
    obtain ⟨a, O', hanswers, hsent, hosts'⟩ := hosts.own hc hlt (h.fresh hr') he
    refine ⟨rfl, O', Or.inr ?_, hosts'⟩
    rw [hsent]
    exact Answers.step hanswers hr'
  | other hc he =>
    obtain ⟨hsent, hosts'⟩ := hosts.other hc he
    refine ⟨rfl, O, Or.inl ?_, hosts'⟩
    rw [hsent, List.append_nil]
    rfl
  | deliver hr hm =>
    obtain ⟨-, -, hclient, -⟩ := OrderManager.onOrderUpdate_eq_ok hm
    exact ⟨hclient, O, Or.inr (.deliver hr hm), hosts⟩

/-- **Every run against the engine is a run of the order flow.** -/
theorem exists_flow {clientId : ClientId} (hlt : clientId.toNat < meMaxNumClients)
    {y : EngineSystem} (h : EngineReachable clientId y) : y.manager.clientId = clientId ∧
      ∃ O, Reachable Meets clientId (y.flow O) ∧ Hosts y.engine clientId O := by
  induction h with
  | refl => exact ⟨rfl, [], Relation.ReflTransGen.refl, hosts_init clientId⟩
  | tail _ hstep ih =>
    obtain ⟨ev, hmeets, hstep⟩ := hstep
    obtain ⟨rfl, O, hreach, hosts⟩ := ih
    obtain ⟨hclient, O', hflow, hosts'⟩ := hstep.flow (inSync_of_reachable hreach) hosts hlt
    refine ⟨hclient, O', ?_, hosts'⟩
    rcases hflow with hsame | hflow
    · rw [hsame]
      exact hreach
    · refine hreach.tail ⟨ev, ?_, hflow⟩
      cases ev <;> exact hmeets

section Reached

variable {clientId : ClientId} {y : EngineSystem}

/-- **One order a side in the books**: an order of the client that rests is the only one of its
ticker and side, and none is on its way. -/
theorem rests_unique (hlt : clientId.toNat < meMaxNumClients) (h : EngineReachable clientId y)
    {t : TickerId} (ht : t.toNat < meMaxTickers) {d d' : OrderData}
    (hd : (y.engine.tickerOrderBook t).Rests d) (hd' : (y.engine.tickerOrderBook t).Rests d')
    (hc : d.clientId = clientId) (hc' : d'.clientId = clientId) (hside : d'.side = d.side) :
    d' = d ∧ newsOf t d.side y.requests = [] := by
  obtain ⟨-, O, hreach, hosts⟩ := exists_flow hlt h
  have hinv := inv_of_reachable hreach
  obtain ⟨hmem, htick⟩ := (hosts.rests_iff ht).1 ⟨hd, hc⟩
  obtain ⟨hmem', htick'⟩ := (hosts.rests_iff ht).1 ⟨hd', hc'⟩
  have hopen : d ∈ openOf t d.side O := List.mem_filter.2 ⟨hmem, decide_eq_true ⟨htick, rfl⟩⟩
  have hopen' : d' ∈ openOf t d.side O := List.mem_filter.2 ⟨hmem', decide_eq_true ⟨htick', hside⟩⟩
  have hle : (openOf t d.side O).length + (newsOf t d.side y.requests).length ≤ 1 :=
    (hinv.slots t d.side (hinv.orders d hmem)).length_le
  have hpos := List.length_pos_of_mem hopen
  obtain ⟨o, ho⟩ : ∃ o, openOf t d.side O = [o] := List.length_eq_one_iff.1 (by omega)
  rw [ho, List.mem_singleton] at hopen hopen'
  exact ⟨hopen'.trans hopen.symm, List.length_eq_zero_iff.1 (by omega)⟩

/-- **Agreement with the books at rest**: with nothing in flight no slot is pending, and the live
ones are those whose order rests in the book. -/
theorem agrees_with_books (hlt : clientId.toNat < meMaxNumClients) (h : EngineReachable clientId y)
    (hrequests : y.requests = []) (hresponses : y.responses = []) {t : TickerId}
    (ht : t.toNat < meMaxTickers) {s : Side} (hs : Traded s) :
    (y.manager.order t s).orderState ≠ .pendingNew ∧
    (y.manager.order t s).orderState ≠ .pendingCancel ∧
    ((y.manager.order t s).orderState = .live ↔ ∃ d, (y.engine.tickerOrderBook t).Rests d ∧
      d.clientId = clientId ∧ d.side = s ∧ d.clientOrderId = (y.manager.order t s).orderId ∧
      d.price = (y.manager.order t s).price ∧ d.qty = (y.manager.order t s).qty) := by
  obtain ⟨-, O, hreach, hosts⟩ := exists_flow hlt h
  obtain ⟨hnew, hcancel, hlive⟩ :=
    (inSync_of_reachable hreach).agrees hrequests hresponses t s hs
  refine ⟨hnew, hcancel, hlive.trans ⟨?_, ?_⟩⟩
  · rintro ⟨d, hd, htick, hfields⟩
    obtain ⟨hrests, hc⟩ := (hosts.rests_iff ht).2 ⟨hd, htick⟩
    exact ⟨d, hrests, hc, hfields⟩
  · rintro ⟨d, hd, hc, hfields⟩
    obtain ⟨hmem, htick⟩ := (hosts.rests_iff ht).1 ⟨hd, hc⟩
    exact ⟨d, hmem, htick, hfields⟩

end Reached

end OrderFlow
end TradingEcosystem
