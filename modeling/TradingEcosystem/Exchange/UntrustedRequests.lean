import TradingEcosystem.Exchange.ExchangeMain

/-!
# Requests from outside

The order server casts what clients send to `MEClientRequest` and the engine looks at none of its
fields before it uses them.  The ticker is an index, the ids are arguments of `at` in functions that
are `noexcept`, any type but two is fatal, and a new order is accepted before it is stored.  A
`CANCEL` of a client of the table wants 8 MiB of stack besides.

`Withstands` is what an exchange should be able to take from anyone, `Harmless` what this one can.
-/

set_option autoImplicit false

namespace TradingEcosystem
namespace Exchange

open Run

/-- The order fits in the tables of the books, and it has a side. -/
structure Storable (req : MEClientRequest) : Prop where
  ticker : req.tickerId.toNat < meMaxTickers
  client : req.clientId.toNat < meMaxNumClients
  order : req.orderId.toNat < meMaxOrderIds
  side : req.side = .buy ∨ req.side = .sell

/-- There is one response, and it is one to a `CANCEL`. -/
def AnswersCancel (sent : List Sent) : Prop :=
  ∃ r, clientResponses sent = [r] ∧ (r.type = .canceled ∨ r.type = .cancelRejected)

namespace MatchingEngine

/-- The request is processed.  A `CANCEL` is answered once, and a `NEW` that cannot be stored
changes nothing and is not accepted. -/
def Withstands (e : MatchingEngine) (req : MEClientRequest) : Prop :=
  ∃ e' sent, e.processClientRequest req = .ok (e', sent) ∧
    (req.requestType = .cancel → AnswersCancel sent) ∧
    (req.requestType = .new → ¬ Storable req →
      e' = e ∧ ∀ r ∈ clientResponses sent, r.type ≠ .accepted)

/-- The condition: the fields are inside the tables, what rests finds room in the pools, and what
is cancelled finds room on the stack. -/
def Harmless (e : MatchingEngine) (req : MEClientRequest) : Prop :=
  match req.requestType with
  | .new =>
    let b := e.tickerOrderBook req.tickerId
    Storable req ∧ (req.qty ≠ 0 →
      b.orderPool.Room ∧ (b.getPriceLevel req.price = none → b.priceLevelsPool.Room))
  | .cancel => req.tickerId.toNat < meMaxTickers ∧ req.clientId.toNat < meMaxNumClients ∧
      req.orderId.toNat < meMaxOrderIds ∧ (e.tickerOrderBook req.tickerId).CopyFits
  | _ => False

/-- A request takes the engine on. -/
def Next (e : MatchingEngine) (req : MEClientRequest) (e' : MatchingEngine) : Prop :=
  ∃ sent, e.processClientRequest req = .ok (e', sent)

/-- Every book of the engine is one that requests can build. -/
abbrev Shaped (e : MatchingEngine) : Prop := e.Owned fun _ => True

variable {e e' : MatchingEngine} {req : MEClientRequest}

theorem Shaped.next (h : e.Shaped) (hn : e.Next req e') : e'.Shaped := by
  obtain ⟨sent, hp⟩ := hn
  exact (h.processClientRequest trivial hp).1

/-- A `NEW` that returns has been accepted, whatever its side. -/
theorem Shaped.accepted (h : e.Shaped) (hn : req.requestType = .new) {sent : List Sent}
    (hp : e.processClientRequest req = .ok (e', sent)) :
    ∃ r ∈ clientResponses sent, r.type = .accepted := by
  obtain ⟨-, b, hb, -⟩ := processClientRequest_eq_ok.1 hp
  obtain ⟨ring, hslots, -⟩ := h req.tickerId
  cases MEOrderBook.processed_of_eq_ok hslots hb with
  | empty _ _ => exact ⟨_, List.mem_cons_self, rfl⟩
  | rested _ _ _ _ => exact ⟨_, List.mem_cons_self, rfl⟩
  | dropped hc _ => exact absurd (hn.symm.trans hc) (by simp)
  | missed hc _ => exact absurd (hn.symm.trans hc) (by simp)
  | removed hc _ _ _ _ => exact absurd (hn.symm.trans hc) (by simp)

/-- What the book returns the engine returns. -/
theorem processClientRequest_of_book (ht : req.tickerId.toNat < meMaxTickers) {b : MEOrderBook}
    {sent : List Sent} (hb : (e.tickerOrderBook req.tickerId).process req = .ok (b, sent)) :
    ∃ e', e.processClientRequest req = .ok (e', sent) :=
  ⟨_, processClientRequest_eq_ok.2 ⟨ht, b, hb, rfl⟩⟩

theorem Shaped.withstands_new_iff (h : e.Shaped) (hn : req.requestType = .new) :
    e.Withstands req ↔ e.Harmless req := by
  obtain ⟨ring, hslots, -⟩ := h req.tickerId
  rw [Harmless, hn]
  refine ⟨fun ⟨e', sent, hp, _, hnew⟩ => ?_, fun ⟨hstore, hroom⟩ => ?_⟩
  · obtain ⟨-, b, hb, -⟩ := processClientRequest_eq_ok.1 hp
    refine ⟨?_, fun hq => MEOrderBook.process_new_room hslots hn hq hb⟩
    by_contra hstore
    obtain ⟨r, hr, haccepted⟩ := h.accepted hn hp
    exact (hnew hn hstore).2 r hr haccepted
  · suffices hbook : ∃ b sent, (e.tickerOrderBook req.tickerId).process req = .ok (b, sent) by
      obtain ⟨b, sent, hb⟩ := hbook
      obtain ⟨e', hp⟩ := processClientRequest_of_book hstore.ticker hb
      exact ⟨e', sent, hp, fun hc => absurd (hn.symm.trans hc) (by simp),
        fun _ hnot => absurd hstore hnot⟩
    by_cases hq : req.qty = 0
    · exact ⟨_, _, MEOrderBook.process_new_zero hslots hn hq⟩
    · obtain ⟨b, hb, -⟩ := MEOrderBook.process_new hslots hn hq hstore.client hstore.order
        (hroom hq).1 (hroom hq).2
      exact ⟨b, _, hb⟩

theorem Shaped.withstands_cancel_iff (h : e.Shaped) (hn : req.requestType = .cancel) :
    e.Withstands req ↔ e.Harmless req := by
  obtain ⟨ring, hslots, -⟩ := h req.tickerId
  rw [Harmless, hn]
  refine ⟨fun ⟨e', sent, hp, hcancel, _⟩ => ?_, fun ⟨ht, hc, ho, hfits⟩ => ?_⟩
  · obtain ⟨ht, b, hb, -⟩ := processClientRequest_eq_ok.1 hp
    have hc : req.clientId.toNat < meMaxNumClients := by
      by_contra hc
      obtain ⟨-, rfl⟩ :=
        Prod.mk.inj (Except.ok.inj (hb.symm.trans (MEOrderBook.process_cancel_dropped hn hc)))
      obtain ⟨r, hr, -⟩ := hcancel hn
      exact absurd hr (by simp)
    exact ⟨ht, hc, MEOrderBook.process_cancel_ids hn hc hb,
      MEOrderBook.process_cancel_fits hn hc hb⟩
  · suffices hbook : ∃ b sent, (e.tickerOrderBook req.tickerId).process req = .ok (b, sent) ∧
        AnswersCancel sent by
      obtain ⟨b, sent, hb, hanswer⟩ := hbook
      obtain ⟨e', hp⟩ := processClientRequest_of_book ht hb
      exact ⟨e', sent, hp, fun _ => hanswer, fun hnew => absurd (hn.symm.trans hnew) (by simp)⟩
    cases hp : (e.tickerOrderBook req.tickerId).clientOrders req.clientId req.orderId with
    | none => exact ⟨_, _, MEOrderBook.process_cancel_miss hfits hn hc ho hp, _, rfl, .inr rfl⟩
    | some p =>
      obtain ⟨i, b, -, hb, -⟩ := MEOrderBook.process_cancel_hit hslots hfits hn hp
      exact ⟨b, _, hb, _, rfl, .inl rfl⟩

/-- **One request**, in any state requests can build. -/
theorem Shaped.withstands_iff (h : e.Shaped) (req : MEClientRequest) :
    e.Withstands req ↔ e.Harmless req := by
  cases hn : req.requestType with
  | new => exact h.withstands_new_iff hn
  | cancel => exact h.withstands_cancel_iff hn
  | invalid =>
    rw [Harmless, hn, iff_false]
    rintro ⟨e', sent, hp, -⟩
    obtain ⟨-, b, hb, -⟩ := processClientRequest_eq_ok.1 hp
    rw [MEOrderBook.process, hn] at hb
    exact absurd hb (by simp)
  | unnamed code hcode =>
    rw [Harmless, hn, iff_false]
    rintro ⟨e', sent, hp, -⟩
    obtain ⟨-, b, hb, -⟩ := processClientRequest_eq_ok.1 hp
    rw [MEOrderBook.process, hn] at hb
    exact absurd hb (by simp)

/-- **Requests from outside**: on a stack of any size the engine takes all requests of a run exactly
when each of them is harmless in the state it finds. -/
theorem along_withstands_iff (stackRoom : Nat) (reqs : List MEClientRequest) :
    Along Next Withstands (init.onStack stackRoom) reqs ↔
      Along Next Harmless (init.onStack stackRoom) reqs :=
  along_congr Shaped (fun _ _ => True) (fun _ req h _ => h.withstands_iff req)
    (fun _ _ _ h _ _ hn => h.next hn) (owned_init.onStack stackRoom)
    (along_of_forall (fun _ _ => trivial) _ _)

/-- A `NEW` order that has neither side. -/
def newWithoutSide : MEClientRequest where
  requestType := .new
  clientId := 1
  tickerId := 0
  orderId := 1
  price := 100
  qty := 5

/-- It is accepted, and it rests. -/
theorem not_along_withstands : ¬ ∀ reqs, Along Next Withstands init reqs := by
  intro h
  have hharmless := (along_withstands_iff orderHashMapSize [newWithoutSide]).1 (h [newWithoutSide])
  exact absurd hharmless.1.1.side (by decide)

end MatchingEngine
end Exchange
end TradingEcosystem
