import TradingEcosystem.Exchange.BookRun
import TradingEcosystem.Exchange.SnapshotSynthesizer
import TradingEcosystem.Trading.MarketOrderBook
import Mathlib.Logic.Function.Iterate

/-!
# The ids of the feed

A book numbers its orders with a counter that goes up with every `NEW`, one without a quantity
included, and never comes down.  The synthesizer and the clients' books index tables of
`ME_MAX_ORDER_IDS` entries with these numbers (`orderAt_iff`).  `along_inRange_iff` says how long
that goes well: until a `NEW` with a quantity finds the counter past the tables.
-/

set_option autoImplicit false

namespace TradingEcosystem

open Run Exchange

/-- The update names an order. -/
def MEMarketUpdate.NamesOrder (u : MEMarketUpdate) : Prop :=
  u.type = .add ∨ u.type = .modify ∨ u.type = .cancel

/-- The tables of the feed's consumers have an entry for an order id exactly below
`ME_MAX_ORDER_IDS`; the ticker id is another matter. -/
theorem orderAt_iff (s : SnapshotSynthesizer) (b : Trading.MarketOrderBook) {tickerId : TickerId}
    (ht : tickerId.toNat < meMaxTickers) (orderId : OrderId) :
    (s.orderAt tickerId orderId ≠ .error .outOfRange ↔ orderId.toNat < meMaxOrderIds) ∧
      (b.orderAt orderId ≠ .error .outOfRange ↔ orderId.toNat < meMaxOrderIds) := by
  by_cases ho : orderId.toNat < meMaxOrderIds <;>
    simp [SnapshotSynthesizer.orderAt, Trading.MarketOrderBook.orderAt, ht, ho]

namespace Exchange
namespace MEOrderBook

/-- **Every order the request makes the book name** has an id inside the tables. -/
def PublishesInRange (b : MEOrderBook) (req : MEClientRequest) : Prop :=
  ∀ b' sent, b.process req = .ok (b', sent) → ∀ u, .marketUpdate u ∈ sent → u.NamesOrder →
    u.orderId.toNat < meMaxOrderIds

/-- The condition: a `NEW` with a quantity finds the counter inside the tables. -/
def CounterInRange (b : MEOrderBook) (req : MEClientRequest) : Prop :=
  req.requestType = .new → req.qty ≠ 0 → b.nextMarketOrderId.toNat < meMaxOrderIds

variable {b b' : MEOrderBook} {ring : Nat → List Ptr} {req : MEClientRequest} {sent : List Sent}

/-! ## One request -/

/-- A response names no order of the feed. -/
theorem not_marketUpdate_mem_response {u : MEMarketUpdate} {r : MEClientResponse} :
    .marketUpdate u ∉ [Sent.clientResponse r] := by simp

/-- The order of a `NEW` is named by the counter, and a `CANCEL` that finds its order by the
client's id, which the table of client orders was read with. -/
theorem Slots.publishesInRange_iff (h : Slots b ring) (hret : Returns b req) :
    PublishesInRange b req ↔ CounterInRange b req := by
  obtain ⟨⟨c, sent⟩, hc⟩ := hret
  have hsent : PublishesInRange b req ↔
      ∀ u, .marketUpdate u ∈ sent → u.NamesOrder → u.orderId.toNat < meMaxOrderIds := by
    refine ⟨fun hp => hp c sent hc, fun hall b' sent' hb' => ?_⟩
    obtain ⟨-, rfl⟩ := Prod.mk.inj (Except.ok.inj (hc.symm.trans hb'))
    exact hall
  rw [hsent]
  cases processed_of_eq_ok h hc with
  | empty hn hq =>
    exact iff_of_true (fun u hu => absurd hu not_marketUpdate_mem_response)
      fun _ hq' => absurd hq hq'
  | rested hn hq =>
    constructor
    · exact fun hall _ _ => hall (addUpdate (b.newOrder ring req)) (by simp) (Or.inl rfl)
    · intro hcond u hu _
      obtain rfl : u = addUpdate (b.newOrder ring req) := by simpa using hu
      exact hcond hn hq
  | dropped hn =>
    exact iff_of_true (fun u hu => absurd hu List.not_mem_nil)
      fun hn' => absurd (hn.symm.trans hn') (by decide)
  | missed hn =>
    exact iff_of_true (fun u hu => absurd hu not_marketUpdate_mem_response)
      fun hn' => absurd (hn.symm.trans hn') (by decide)
  | @removed _ p i hn hp hi =>
    refine iff_of_true (fun u hu _ => ?_) fun hn' => absurd (hn.symm.trans hn') (by decide)
    obtain rfl : u = cancelUpdate req.orderId req (b.data p) := by simpa using hu
    obtain ⟨-, -, hid⟩ := h.table _ _ _ hp
    exact hid ▸ (h.idsLt i p hi).2

/-! ## Whole runs -/

/-- The ids a book publishes stay inside the tables, in a run that returns, exactly as long as every
`NEW` with a quantity finds the counter inside them. -/
theorem along_inRange_iff (t : TickerId) (reqs : List MEClientRequest)
    (hret : Along Next Returns (init t) reqs) :
    Along Next PublishesInRange (init t) reqs ↔ Along Next CounterInRange (init t) reqs := by
  refine along_congr (fun b => ∃ ring, Slots b ring) Returns ?_ ?_ ⟨_, slots_init t⟩ hret
  · rintro b req ⟨ring, h⟩ hret
    exact h.publishesInRange_iff hret
  · rintro b req b' ⟨ring, h⟩ - - ⟨sent, hsent⟩
    exact (processed_of_eq_ok h hsent).slots h

/-! ## The counter -/

/-- Every `NEW` counts, whatever became of it. -/
theorem Processed.nextMarketOrderId (h : Processed b ring req b' sent) : b'.nextMarketOrderId =
    b.nextMarketOrderId + if req.requestType = .new then 1 else 0 := by
  cases h with
  | empty hn => rw [if_pos hn]; rfl
  | rested hn _ hi => rw [if_pos hn]; exact hi.marketOrderId
  | dropped hn => simp [hn]
  | missed hn => simp [hn]
  | removed hn _ _ hr => rw [if_neg (by simp [hn]), hr.marketOrderId, UInt64.add_zero]

/-- How many of the requests are a `NEW`. -/
def newCount (reqs : List MEClientRequest) : Nat :=
  reqs.countP fun req => req.requestType = .new

theorem Slots.nextMarketOrderId_of_foldlM {x y : MEOrderBook × List Sent} (h : Slots x.1 ring)
    {reqs : List MEClientRequest} (hy : reqs.foldlM processAfter x = .ok y) :
    y.1.nextMarketOrderId = x.1.nextMarketOrderId + .ofNat (newCount reqs) := by
  induction reqs generalizing x ring with
  | nil =>
    obtain rfl : x = y := Except.ok.inj hy
    exact (UInt64.add_zero _).symm
  | cons req reqs ih =>
    rw [List.foldlM_cons] at hy
    obtain ⟨z, hz, hy⟩ := bind_eq_ok.1 hy
    obtain ⟨more, hmore, -⟩ := processAfter_eq_ok.1 hz
    have hp := processed_of_eq_ok h hmore
    obtain ⟨ring', hring'⟩ := hp.slots h
    rw [ih hring' hy, hp.nextMarketOrderId, UInt64.add_assoc, newCount, newCount, List.countP_cons,
      Nat.add_comm, UInt64.ofNat_add]
    by_cases hn : req.requestType = .new <;> simp [hn]

/-- **The counter** of a book is one more than the requests `NEW` it has seen. -/
theorem nextMarketOrderId_of_processAll {t : TickerId} {reqs : List MEClientRequest}
    (h : (init t).processAll reqs = .ok (b, sent)) :
    b.nextMarketOrderId = .ofNat (newCount reqs + 1) := by
  rw [(slots_init t).nextMarketOrderId_of_foldlM h, UInt64.ofNat_add, UInt64.add_comm]
  rfl

/-! ## A run past the tables -/

/-- A `NEW` without a quantity. -/
def newWithoutQty : MEClientRequest where
  requestType := .new
  clientId := 1
  tickerId := 0
  orderId := 5
  price := 100
  qty := 0
  side := .buy

theorem process_newWithoutQty (h : Slots b ring) : b.process newWithoutQty =
    .ok (b.generateNewMarketOrderId,
      [.clientResponse (acceptedResponse b.nextMarketOrderId newWithoutQty)]) :=
  process_new_zero h rfl rfl

/-- Requests without a quantity move the counter, and nothing else. -/
theorem along_replicate_iff {good : MEOrderBook → MEClientRequest → Prop}
    (hgood : ∀ b ring, Slots b ring → good b newWithoutQty) (h : Slots b ring) (n : Nat)
    (rest : List MEClientRequest) :
    Along Next good b (List.replicate n newWithoutQty ++ rest) ↔
      Along Next good { b with nextMarketOrderId := b.nextMarketOrderId + .ofNat n } rest := by
  induction n generalizing b with
  | zero => simp
  | succ n ih =>
    rw [List.replicate_succ, List.cons_append, along_cons,
      forall_next_iff (process_newWithoutQty h), and_iff_right (hgood b ring h),
      ih h.generateNewMarketOrderId, Nat.add_comm n 1, UInt64.ofNat_add, ← UInt64.add_assoc]
    rfl

/-- The request that comes after. -/
def newWithQty : MEClientRequest := { newWithoutQty with qty := 10 }

/-- The counter may be anywhere when the first order comes. -/
theorem returns_newWithQty (n : Nat) : Returns
    { init 0 with nextMarketOrderId := (init 0).nextMarketOrderId + .ofNat n } newWithQty := by
  have h : Slots { init 0 with nextMarketOrderId := (init 0).nextMarketOrderId + .ofNat n }
      fun _ => [] := { slots_init 0 with pools := { (slots_init 0).pools with } }
  have hroom : (init 0).orderPool.Room ∧ (init 0).priceLevelsPool.Room := by decide
  have hnew : newWithQty.requestType = .new := rfl
  obtain ⟨b', hb', -⟩ := process_new h hnew (by decide) (by decide) (by decide) hroom.1
    fun _ => hroom.2
  exact ⟨_, hb'⟩

theorem along_returns_replicate (n : Nat) :
    Along Next Returns (init 0) (List.replicate n newWithoutQty ++ [newWithQty]) :=
  (along_replicate_iff (fun _ _ h => ⟨_, process_newWithoutQty h⟩) (slots_init 0) n _).2
    ⟨returns_newWithQty n, fun _ _ => trivial⟩

theorem along_inRange_iff_replicate :
    Along Next PublishesInRange (init 0) (List.replicate 3 newWithoutQty ++ [newWithQty]) ↔
      Along Next CounterInRange (init 0) (List.replicate 3 newWithoutQty ++ [newWithQty]) :=
  along_inRange_iff 0 _ (along_returns_replicate 3)

/-- After as many requests without a quantity as the tables have entries, less one, the first order
is named by an id past them. -/
theorem not_along_inRange : ¬ ∀ t reqs, Along Next Returns (init t) reqs →
    Along Next PublishesInRange (init t) reqs := by
  intro h
  have hret := along_returns_replicate (meMaxOrderIds - 1)
  have hcond := (along_inRange_iff 0 _ hret).1 (h 0 _ hret)
  have hlast := (along_replicate_iff (fun _ _ _ _ hq => absurd rfl hq) (slots_init 0)
    (meMaxOrderIds - 1) [newWithQty]).1 hcond
  exact absurd (hlast.1 rfl (by decide)) (by decide)

end MEOrderBook
end Exchange
end TradingEcosystem
