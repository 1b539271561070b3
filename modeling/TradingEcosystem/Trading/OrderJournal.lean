import TradingEcosystem.Trading.StaleResponses
import TradingEcosystem.Lib.History

/-!
# What the order manager sends

The manager follows every response it is given, so a slot can be in any state whatever the exchange
did.  The journal of a run has the requests the manager built and the responses it was given, each
with its slot, and `accounts_of_run` is what holds of it with no assumption on the responses: the
numbers of the orders, which order a `CANCEL` names, and how many requests a slot can send for the
responses it got.

Every entry of a slot opens, cancels, accepts or closes its order, or does none of it.  The account
of a slot (`SlotAccount`) is kept by each of these.
-/

set_option autoImplicit false

namespace TradingEcosystem
namespace Trading

open History

/-- A ticker, and the place of a side in its row. -/
abbrev Slot := TickerId × UInt64

/-- An entry of the journal. -/
inductive JournalEntry where
  | sent (slot : Slot) (request : MEClientRequest)
  | heard (response : MEClientResponse)

/-- What an entry means for the order of its slot. -/
inductive Meaning where
  | opens
  | cancels
  | accepts
  | closes
  | none
  deriving DecidableEq

namespace JournalEntry

def slot : JournalEntry → Slot
  | .sent slot _ => slot
  | .heard r => (r.tickerId, sideToIndex r.side)

def meaning : JournalEntry → Meaning
  | .sent _ r => if r.requestType = .new then .opens else .cancels
  | .heard r =>
    match r.type with
    | .accepted => .accepts
    | .canceled => .closes
    | .filled => if r.leftQty = 0 then .closes else .none
    | _ => .none

def requests : JournalEntry → List MEClientRequest
  | .sent _ r => [r]
  | .heard _ => []

end JournalEntry

/-- The state of an order behind an entry of its slot. -/
def OMOrderState.after (state : OMOrderState) : Meaning → OMOrderState
  | .opens => .pendingNew
  | .cancels => .pendingCancel
  | .accepts => .live
  | .closes => .dead
  | .none => state

/-- An order that was opened and not closed. -/
def OMOrderState.unclosed : OMOrderState → Nat
  | .invalid | .dead => 0
  | .pendingNew | .live | .pendingCancel => 1

/-- An order that can be cancelled. -/
def OMOrderState.alive : OMOrderState → Nat
  | .live => 1
  | _ => 0

theorem OMOrderState.unclosed_le (state : OMOrderState) : state.unclosed ≤ 1 := by
  cases state <;> decide

/-- What a `CANCEL` of an order says of it, apart from the quantity. -/
def OMOrder.identity (o : OMOrder) : TickerId × OrderId × Side × Price :=
  (o.tickerId, o.orderId, o.side, o.price)

namespace Journal

variable (journal : List JournalEntry)

/-- How many entries of the slot mean this. -/
def count (slot : Slot) (meaning : Meaning) : Nat :=
  journal.countP fun e => e.slot = slot ∧ e.meaning = meaning

/-- The requests that opened an order. -/
def news : List MEClientRequest :=
  (journal.flatMap JournalEntry.requests).filter fun r => r.requestType = .new

/-- The request that opened the last order of the slot. -/
def lastNew (slot : Slot) : Option MEClientRequest :=
  (news (journal.filter fun e => e.slot = slot)).getLast?

/-- The order as a request opened it, if there was one. -/
def opened : Option MEClientRequest → OMOrder
  | .none => {}
  | .some r => { tickerId := r.tickerId, orderId := r.orderId, side := r.side, price := r.price }

/-- A request is a `NEW`, or it cancels the last order its slot has opened. -/
def Names : JournalEntry → Prop
  | .sent slot r => r.requestType = .new ∨ ∀ q, lastNew journal slot = some q →
      r = { q with requestType := .cancel, qty := r.qty }
  | .heard _ => True

/-- **The account of a slot** with this order. -/
structure SlotAccount (slot : Slot) (o : OMOrder) : Prop where
  /-- For every new order but the one that is not closed, one was closed. -/
  opens : count journal slot .opens ≤
    count journal slot .closes + o.orderState.unclosed
  /-- For every cancel one was accepted, and one more if the order is live. -/
  cancels : count journal slot .cancels + o.orderState.alive ≤ count journal slot .accepts
  /-- The order is the last that was opened. -/
  order : o.identity = (opened (lastNew journal slot)).identity

variable {journal} {slot : Slot} {o : OMOrder} {e : JournalEntry}

theorem count_concat (slot : Slot) (meaning : Meaning) : count (journal ++ [e]) slot meaning =
    count journal slot meaning + if e.slot = slot ∧ e.meaning = meaning then 1 else 0 := by
  rw [count, List.countP_append, List.countP_singleton, count]
  simp only [decide_eq_true_eq]

theorem count_concat_of_ne (h : e.slot ≠ slot) (meaning : Meaning) :
    count (journal ++ [e]) slot meaning = count journal slot meaning := by
  rw [count_concat, if_neg fun he => h he.1, Nat.add_zero]

theorem news_concat (e : JournalEntry) : news (journal ++ [e]) =
    news journal ++ e.requests.filter fun r => r.requestType = .new := by
  rw [news, news, List.flatMap_append, List.filter_append, List.flatMap_singleton]

/-- A new order is the last one its slot has opened. -/
theorem lastNew_concat_new {r : MEClientRequest} (hr : r.requestType = .new) :
    lastNew (journal ++ [.sent slot r]) slot = some r := by
  have hslot : (JournalEntry.sent slot r).slot = slot := rfl
  rw [lastNew, List.filter_append, List.filter_cons_of_pos (by simpa using hslot), List.filter_nil,
    news_concat, JournalEntry.requests, List.filter_cons_of_pos (by simpa using hr),
    List.filter_nil, List.getLast?_concat]

theorem lastNew_concat_other (slot : Slot)
    (he : e.slot ≠ slot ∨ (e.requests.filter fun r => r.requestType = .new) = []) :
    lastNew (journal ++ [e]) slot = lastNew journal slot := by
  rw [lastNew, lastNew, List.filter_append]
  by_cases hslot : e.slot = slot
  · rw [List.filter_cons_of_pos (by simpa using hslot), List.filter_nil, news_concat,
      he.resolve_left (not_not.2 hslot), List.append_nil]
  · rw [List.filter_cons_of_neg (by simpa using hslot), List.filter_nil, List.append_nil]

theorem mem_of_lastNew {r : MEClientRequest} (h : lastNew journal slot = some r) :
    r ∈ journal.flatMap JournalEntry.requests := by
  obtain ⟨hr, -⟩ := List.mem_filter.1 (List.mem_of_getLast? h)
  obtain ⟨e, he, hr⟩ := List.mem_flatMap.1 hr
  exact List.mem_flatMap.2 ⟨e, List.mem_of_mem_filter he, hr⟩

theorem account_start (slot : Slot) : SlotAccount [] slot {} where
  opens := Nat.zero_le _
  cancels := Nat.le_refl _
  order := rfl

/-- An entry of another slot. -/
theorem SlotAccount.other (h : SlotAccount journal slot o) (he : e.slot ≠ slot) :
    SlotAccount (journal ++ [e]) slot o where
  opens := by
    rw [count_concat_of_ne he, count_concat_of_ne he]
    exact h.opens
  cancels := by
    rw [count_concat_of_ne he, count_concat_of_ne he]
    exact h.cancels
  order := by
    rw [lastNew_concat_other slot (.inl he)]
    exact h.order

/-- **An entry of the slot**: an order is opened in a free slot and cancelled while it is live. -/
theorem SlotAccount.entry (h : SlotAccount journal slot o) {o' : OMOrder} (he : e.slot = slot)
    (hstate : o'.orderState = o.orderState.after e.meaning)
    (hopens : e.meaning = .opens → o.orderState.unclosed = 0)
    (hcancels : e.meaning = .cancels → o.orderState = .live)
    (horder : o'.identity = (opened (lastNew (journal ++ [e]) slot)).identity) :
    SlotAccount (journal ++ [e]) slot o' := by
  have hnews := h.opens
  have haccepts := h.cancels
  have hle := o.orderState.unclosed_le
  refine ⟨?_, ?_, horder⟩ <;> rw [count_concat, count_concat, hstate] <;>
    cases hm : e.meaning <;> simp only [he, true_and, reduceCtorEq, if_true, if_false,
      OMOrderState.after, OMOrderState.unclosed, OMOrderState.alive]
  case refine_1.opens =>
    have hfree := hopens hm
    omega
  case refine_2.cancels =>
    rw [hcancels hm] at haccepts
    exact haccepts
  case refine_1.none => exact hnews
  case refine_2.none => exact haccepts
  all_goals omega

end Journal

/-! ## Runs -/

/-- The manager and its journal. -/
structure JournalRun where
  manager : OrderManager
  journal : List JournalEntry := []

namespace OrderManager

/-- The slot of a ticker and a side. -/
def slotOf (tickerId : TickerId) (side : Side) : Slot := (tickerId, sideToIndex side)

/-- The requests of a move as entries. -/
def moveEntries (m : OrderManager) (tickerId : TickerId) (price : Price) (side : Side) (qty : Qty) :
    List JournalEntry :=
  (m.moveOrder tickerId price side qty).2.map (.sent (slotOf tickerId side))

/-- Those of `moveOrders`: the bid's and then the ask's. -/
def entries (m : OrderManager) (tickerId : TickerId) (bidPrice askPrice : Price) (clip : Qty) :
    List JournalEntry :=
  m.moveEntries tickerId bidPrice .buy clip ++
    (m.moveOrder tickerId bidPrice .buy clip).1.moveEntries tickerId askPrice .sell clip

/-- They are what `moveOrders` builds. -/
theorem requests_entries {m m' : OrderManager} {t : TickerId} {bid ask : Price} {clip : Qty}
    {rs : List MEClientRequest} (h : m.moveOrders t bid ask clip = .ok (m', rs)) :
    (m.entries t bid ask clip).flatMap JournalEntry.requests = rs := by
  obtain ⟨m₁, rfl, -, rfl⟩ := moveOrders_eq_ok h
  have hmove : ∀ (slot : Slot) (rs : List MEClientRequest),
      (rs.map (JournalEntry.sent slot)).flatMap JournalEntry.requests = rs := fun slot rs => by
    rw [List.flatMap_map]
    exact List.flatMap_singleton' rs
  rw [entries, moveEntries, moveEntries, List.flatMap_append, hmove, hmove]

end OrderManager

namespace JournalRun

open Journal OrderManager

/-- One call. -/
def step (x : JournalRun) : ManagerCall → Except Fault JournalRun
  | .moveOrders tickerId bidPrice askPrice clip => do
    let (manager, _) ← x.manager.moveOrders tickerId bidPrice askPrice clip
    return { manager, journal := x.journal ++ x.manager.entries tickerId bidPrice askPrice clip }
  | .onOrderUpdate response => do
    let manager ← x.manager.onOrderUpdate response
    return { manager, journal := x.journal ++ [.heard response] }

/-- One call after the other. -/
def run (x : JournalRun) (calls : List ManagerCall) : Except Fault JournalRun := calls.foldlM step x

/-- The invariant: the journal is numbered, the manager goes on from it, and every slot has its
account. -/
structure Kept (clientId : ClientId) (x : JournalRun) : Prop where
  clientId_eq : x.manager.clientId = clientId
  own : ∀ r ∈ x.journal.flatMap JournalEntry.requests, r.clientId = clientId
  numbers : ((news x.journal).map fun r => r.orderId) =
    (List.range (news x.journal).length).map fun i => .ofNat (i + 1)
  next : x.manager.nextOrderId = .ofNat ((news x.journal).length + 1)
  slots : ∀ slot : Slot, SlotAccount x.journal slot (x.manager.tickerOrders slot.1 slot.2)
  names : Throughout Names x.journal

theorem kept_start (clientId : ClientId) : Kept clientId { manager := { clientId } } where
  clientId_eq := rfl
  own := fun _ h => absurd h List.not_mem_nil
  numbers := rfl
  next := rfl
  slots := fun slot => account_start slot
  names := throughout_nil

variable {clientId : ClientId} {m m' : OrderManager} {journal : List JournalEntry}
  {t : TickerId} {s : Side}

/-- The slots behind a write to one of them. -/
theorem slots_setOrder (h : Kept clientId ⟨m, journal⟩) {e : JournalEntry} {o : OMOrder}
    (he : e.slot = slotOf t s) (ho : SlotAccount (journal ++ [e]) (slotOf t s) o) (slot : Slot) :
    SlotAccount (journal ++ [e]) slot ((m.setOrder t s o).tickerOrders slot.1 slot.2) := by
  obtain ⟨t', i⟩ := slot
  by_cases hslot : (t', i) = slotOf t s
  · obtain ⟨rfl, rfl⟩ := Prod.mk.inj hslot
    have hself : (m.setOrder t' s o).tickerOrders t' (sideToIndex s) = o := order_setOrder_self o
    dsimp only
    rw [hself]
    exact ho
  · have hsame : (m.setOrder t s o).tickerOrders t' i = m.tickerOrders t' i := by
      rw [setOrder]
      dsimp only
      by_cases ht : t' = t
      · subst ht
        have hi : i ≠ sideToIndex s := fun hi => hslot (Prod.ext rfl hi)
        rw [Function.update_self, Function.update_of_ne hi]
      · rw [Function.update_of_ne ht]
    dsimp only
    rw [hsame]
    exact (h.slots (t', i)).other fun heq => hslot (heq.symm.trans he)

/-- **A new order** in a free slot. -/
theorem Kept.newOrder (h : Kept clientId ⟨m, journal⟩) (price : Price) (qty : Qty)
    (hfree : (m.order t s).orderState.unclosed = 0) :
    Kept clientId ⟨(m.newOrder t price s qty).1,
      journal ++ [.sent (slotOf t s) (m.newOrder t price s qty).2]⟩ := by
  have hnew : (m.newOrder t price s qty).2.requestType = .new := rfl
  have hnews : news (journal ++ [.sent (slotOf t s) (m.newOrder t price s qty).2]) =
      news journal ++ [(m.newOrder t price s qty).2] := by
    rw [news_concat, JournalEntry.requests, List.filter_cons_of_pos (by simpa using hnew),
      List.filter_nil]
  refine ⟨h.clientId_eq, ?_, ?_, ?_, ?_, throughout_concat.2 ⟨h.names, .inl hnew⟩⟩
  · intro q hq
    rw [List.flatMap_append, List.flatMap_singleton] at hq
    rcases List.mem_append.1 hq with hq | hq
    · exact h.own q hq
    · obtain rfl := List.mem_singleton.1 hq
      exact h.clientId_eq
  · rw [hnews, List.map_append, List.length_append, List.length_singleton, List.range_succ,
      List.map_append, h.numbers]
    exact congrArg (fun id => _ ++ [id]) h.next
  · rw [hnews, List.length_append, List.length_singleton, UInt64.ofNat_add]
    exact congrArg (· + 1) h.next
  · refine slots_setOrder h rfl ((h.slots (slotOf t s)).entry rfl rfl (fun _ => hfree) ?_ ?_)
    · intro hm
      rw [JournalEntry.meaning, if_pos hnew] at hm
      exact absurd hm (by decide)
    · rw [lastNew_concat_new hnew]
      rfl

/-- An entry that opens no order leaves the numbers and the manager's next one. -/
theorem Kept.other (h : Kept clientId ⟨m, journal⟩) {e : JournalEntry} {o : OMOrder}
    (hnone : (e.requests.filter fun r => r.requestType = .new) = [])
    (hown : ∀ r ∈ e.requests, r.clientId = clientId) (he : e.slot = slotOf t s)
    (ho : SlotAccount (journal ++ [e]) (slotOf t s) o) (hnames : Names journal e) :
    Kept clientId ⟨m.setOrder t s o, journal ++ [e]⟩ := by
  have hnews : news (journal ++ [e]) = news journal := by
    rw [news_concat, hnone, List.append_nil]
  refine ⟨h.clientId_eq, ?_, ?_, ?_, slots_setOrder h he ho,
    throughout_concat.2 ⟨h.names, hnames⟩⟩
  · intro r hr
    rw [List.flatMap_append, List.flatMap_singleton] at hr
    exact (List.mem_append.1 hr).elim (h.own r) (hown r)
  · rw [hnews]
    exact h.numbers
  · rw [hnews]
    exact h.next

/-- **A cancel** of a live order. -/
theorem Kept.cancelOrder (h : Kept clientId ⟨m, journal⟩)
    (hlive : (m.order t s).orderState = .live) :
    Kept clientId
      ⟨(m.cancelOrder t s).1, journal ++ [.sent (slotOf t s) (m.cancelOrder t s).2]⟩ := by
  have horder : (m.order t s).identity = (opened (lastNew journal (slotOf t s))).identity :=
    (h.slots (slotOf t s)).order
  have hcancel : (m.cancelOrder t s).2.requestType = .cancel := rfl
  have hnot : (m.cancelOrder t s).2.requestType ≠ .new := by
    rw [hcancel]
    decide
  have hnone : ((JournalEntry.sent (slotOf t s) (m.cancelOrder t s).2).requests.filter
      fun r => r.requestType = .new) = [] := by
    rw [JournalEntry.requests, List.filter_cons_of_neg (by simpa using hnot), List.filter_nil]
  refine h.other hnone ?_ rfl ?_ (.inr fun q hq => ?_)
  · intro r hr
    obtain rfl := List.mem_singleton.1 hr
    exact h.clientId_eq
  · refine (h.slots (slotOf t s)).entry rfl ?_ ?_ (fun _ => hlive) ?_
    · rw [JournalEntry.meaning, if_neg hnot]
      rfl
    · intro hm
      rw [JournalEntry.meaning, if_neg hnot] at hm
      exact absurd hm (by decide)
    · rw [lastNew_concat_other _ (.inr hnone)]
      exact horder
  · rw [hq] at horder
    obtain ⟨ht, hrest⟩ := Prod.mk.inj horder
    obtain ⟨hid, hrest⟩ := Prod.mk.inj hrest
    obtain ⟨hside, hprice⟩ := Prod.mk.inj hrest
    rw [OrderManager.cancelOrder, ht, hid, hside, hprice, h.clientId_eq,
      ← h.own q (mem_of_lastNew hq)]
    rfl

theorem orderState_followed (o : OMOrder) (r : MEClientResponse) :
    (followed o r).orderState = o.orderState.after (JournalEntry.heard r).meaning := by
  rw [followed, JournalEntry.meaning]
  cases r.type <;> dsimp only <;> try rfl
  split <;> rfl

theorem identity_followed (o : OMOrder) (r : MEClientResponse) :
    (followed o r).identity = o.identity := by
  rw [followed]
  cases r.type <;> dsimp only <;> try rfl
  split <;> rfl

/-- A response neither opens nor cancels. -/
theorem meaning_heard (r : MEClientResponse) :
    (JournalEntry.heard r).meaning ≠ .opens ∧ (JournalEntry.heard r).meaning ≠ .cancels := by
  rw [JournalEntry.meaning]
  cases r.type <;> dsimp only <;> try decide
  split <;> decide

/-- **A response.** -/
theorem Kept.heard (h : Kept clientId ⟨m, journal⟩) {r : MEClientResponse}
    (hn : m.onOrderUpdate r = .ok m') : Kept clientId ⟨m', journal ++ [.heard r]⟩ := by
  obtain ⟨o, ho, -⟩ := bind_eq_ok.1 hn
  obtain rfl := orderAt_eq_ok ho
  rw [onOrderUpdate_of_orderAt ho] at hn
  obtain rfl := Except.ok.inj hn
  obtain ⟨hopens, hcancels⟩ := meaning_heard r
  refine h.other rfl (fun _ hr => absurd hr List.not_mem_nil) rfl ?_ trivial
  refine (h.slots (slotOf r.tickerId r.side)).entry rfl (orderState_followed _ r)
    (fun hm => absurd hm hopens) (fun hm => absurd hm hcancels) ?_
  rw [identity_followed, lastNew_concat_other _ (.inr rfl)]
  exact (h.slots (slotOf r.tickerId r.side)).order

/-- **A move** of one order. -/
theorem Kept.moveOrder (h : Kept clientId ⟨m, journal⟩) (t : TickerId) (price : Price) (s : Side)
    (qty : Qty) : Kept clientId ⟨(m.moveOrder t price s qty).1,
      journal ++ m.moveEntries t price s qty⟩ := by
  rw [moveEntries]
  rcases moveOrder_cases m t price s qty with ⟨hlive, -, hm⟩ | ⟨hfree, hm⟩ | hm <;> rw [hm]
  · exact h.cancelOrder hlive
  · refine h.newOrder price qty ?_
    rcases hfree with hfree | hfree <;> rw [hfree] <;> rfl
  · rw [List.map_nil, List.append_nil]
    exact h

/-- **One call.** -/
theorem Kept.step {x x' : JournalRun} (h : Kept clientId x) {call : ManagerCall}
    (hn : x.step call = .ok x') : Kept clientId x' := by
  cases call with
  | moveOrders t bid ask clip =>
    obtain ⟨⟨m', rs⟩, hmoves, hn⟩ := bind_eq_ok.1 hn
    obtain rfl := Except.ok.inj hn
    obtain ⟨m₁, rfl, rfl, -⟩ := moveOrders_eq_ok hmoves
    have hboth := (h.moveOrder t bid .buy clip).moveOrder t ask .sell clip
    rw [List.append_assoc] at hboth
    exact hboth
  | onOrderUpdate r =>
    obtain ⟨m', hheard, hn⟩ := bind_eq_ok.1 hn
    obtain rfl := Except.ok.inj hn
    exact h.heard hheard

end JournalRun
end Trading
end TradingEcosystem
