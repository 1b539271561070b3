import TradingEcosystem.Exchange.TickerBooks
import Mathlib.Logic.Equiv.Basic

/-!
# The engine treats its clients alike

What the clients are called makes no difference to the matching engine, as long as it has room for
the names: where they are called otherwise, the responses go to the new names and nothing else
changes.  So no client is privileged by its id, and nobody can tell from the feed who sent what.

The table of orders is where this is seen (`OrderTable.process_rename`); the books have the same
tables, and the engine has the books (`alike_of_rename`).
-/

set_option autoImplicit false

namespace TradingEcosystem

/-! ## Other names -/

def MEClientRequest.rename (σ : Equiv.Perm ClientId) (req : MEClientRequest) : MEClientRequest :=
  { req with clientId := σ req.clientId }

def MEClientResponse.rename (σ : Equiv.Perm ClientId) (r : MEClientResponse) : MEClientResponse :=
  { r with clientId := σ r.clientId }

namespace Exchange

open TwoRuns

section

variable (σ : Equiv.Perm ClientId)

def OrderData.rename (d : OrderData) : OrderData := { d with clientId := σ d.clientId }

def Entry.rename (e : Entry) : Entry := { e with order := e.order.rename σ }

/-- A market update names no client. -/
def Sent.rename : Sent → Sent
  | .clientResponse r => .clientResponse (r.rename σ)
  | .marketUpdate u => .marketUpdate u

def OrderTable.rename (t : OrderTable) : OrderTable :=
  { t with
    entries := t.entries.map (Entry.rename σ)
    owned := fun c o => (t.owned (σ.symm c) o).map (Entry.rename σ) }

/-- The new names of the clients the engine has a table for are such names. -/
def Known : Prop := ∀ c : ClientId, (σ c).toNat < meMaxNumClients ↔ c.toNat < meMaxNumClients

end

variable {σ : Equiv.Perm ClientId} {t : OrderTable} {req : MEClientRequest}

namespace OrderTable

theorem sharing_rename (t : OrderTable) (price : Price) :
    (t.rename σ).sharing price = (t.sharing price).map (Entry.rename σ) := by
  rw [sharing, sharing, rename, List.filter_map]
  rfl

theorem newOrder_rename (t : OrderTable) (req : MEClientRequest) :
    (t.rename σ).newOrder (req.rename σ) = (t.newOrder req).rename σ := by
  have horders : ((t.rename σ).sharing req.price).map Entry.order =
      ((t.sharing req.price).map Entry.order).map (OrderData.rename σ) := by
    rw [sharing_rename, List.map_map, List.map_map]
    rfl
  have hpriority : ∀ l : List OrderData,
      MEOrderBook.nextPriority (l.map (OrderData.rename σ)) = MEOrderBook.nextPriority l := by
    intro l
    rw [MEOrderBook.nextPriority, MEOrderBook.nextPriority, List.getLast?_map]
    cases l.getLast? <;> rfl
  rw [newOrder, newOrder]
  change OrderData.mk _ _ _ _ _ _ _ (MEOrderBook.nextPriority
    (((t.rename σ).sharing req.price).map Entry.order)) = _
  rw [horders, hpriority]
  rfl

theorem hasRoom_rename (t : OrderTable) (price : Price) :
    (t.rename σ).HasRoom price ↔ t.HasRoom price := by
  rw [HasRoom, HasRoom, sharing_rename, List.map_eq_nil_iff]
  rfl

/-- The entry of a client under its new name. -/
theorem own_rename (t : OrderTable) (c : ClientId) (o : OrderId) (e : Option Entry) :
    (t.rename σ).own (σ c) o (e.map (Entry.rename σ)) =
      fun c' o' => (t.own c o e (σ.symm c') o').map (Entry.rename σ) := by
  funext c' o'
  rw [own, own, update_update_apply, update_update_apply]
  simp only [Equiv.symm_apply_eq]
  split
  · rfl
  · rfl

theorem insert_rename (t : OrderTable) (d : OrderData) :
    (t.rename σ).insert (d.rename σ) = (t.insert d).rename σ := by
  have hown := own_rename (σ := σ) t d.clientId d.clientOrderId (some ⟨t.ordersTaken, d⟩)
  have hshare : (t.rename σ).sharing d.price = [] ↔ t.sharing d.price = [] := by
    rw [sharing_rename, List.map_eq_nil_iff]
  rw [insert, insert]
  refine (OrderTable.mk.injEq ..).mpr ⟨?_, hown, rfl, rfl, ?_, rfl⟩
  · dsimp only
    rw [List.map_append]
    rfl
  · exact congrArg (t.levelsTaken + ·) (if_congr hshare rfl rfl)

theorem remove_rename (t : OrderTable) (e : Entry) :
    (t.rename σ).remove (e.rename σ) = (t.remove e).rename σ := by
  have hown := own_rename (σ := σ) t e.order.clientId e.order.clientOrderId none
  rw [remove, remove]
  refine (OrderTable.mk.injEq ..).mpr ⟨?_, hown, rfl, rfl, rfl, rfl⟩
  rw [rename, List.filter_map]
  rfl

theorem owned_rename (t : OrderTable) (c : ClientId) (o : OrderId) :
    (t.rename σ).owned (σ c) o = (t.owned c o).map (Entry.rename σ) :=
  congrArg (fun c => (t.owned c o).map (Entry.rename σ)) (σ.symm_apply_apply c)

theorem add_rename (hσ : Known σ) (t : OrderTable) (req : MEClientRequest) :
    (t.rename σ).add (req.rename σ) =
      (t.add req).map fun x => (x.1.rename σ, x.2.map (Sent.rename σ)) := by
  have hnew := newOrder_rename (σ := σ) t req
  have hinsert := insert_rename (σ := σ) t.count (t.newOrder req)
  rw [add, add]
  by_cases hq : req.qty = 0
  · have hq' : (req.rename σ).qty = 0 := hq
    rw [if_pos hq, if_pos hq']
    rfl
  have hq' : ¬ (req.rename σ).qty = 0 := hq
  rw [if_neg hq, if_neg hq']
  by_cases hroom : t.HasRoom req.price
  · have hroom' : (t.rename σ).HasRoom (req.rename σ).price := (hasRoom_rename t _).2 hroom
    rw [if_pos hroom, if_pos hroom']
    by_cases hids : req.clientId.toNat < meMaxNumClients ∧ req.orderId.toNat < meMaxOrderIds
    · rw [if_pos hids, if_pos ⟨(hσ _).2 hids.1, hids.2⟩, hnew]
      exact congrArg Except.ok (Prod.ext hinsert rfl)
    · rw [if_neg hids, if_neg fun h => hids ⟨(hσ _).1 h.1, h.2⟩]
      rfl
  · have hroom' : ¬ (t.rename σ).HasRoom (req.rename σ).price :=
      fun h => hroom ((hasRoom_rename t _).1 h)
    rw [if_neg hroom, if_neg hroom']
    rfl

theorem cancel_rename (hσ : Known σ) (t : OrderTable) (req : MEClientRequest) :
    (t.rename σ).cancel (req.rename σ) =
      (t.cancel req).map fun x => (x.1.rename σ, x.2.map (Sent.rename σ)) := by
  rw [cancel, cancel]
  by_cases hc : req.clientId.toNat < meMaxNumClients
  · have hc' : (req.rename σ).clientId.toNat < meMaxNumClients := (hσ _).2 hc
    rw [if_pos hc, if_pos hc']
    by_cases hfits : t.CopyFits
    · have hfits' : (t.rename σ).CopyFits := hfits
      rw [if_pos hfits, if_pos hfits']
      by_cases ho : req.orderId.toNat < meMaxOrderIds
      · have ho' : (req.rename σ).orderId.toNat < meMaxOrderIds := ho
        have howned : (t.rename σ).owned (req.rename σ).clientId (req.rename σ).orderId =
            (t.owned req.clientId req.orderId).map (Entry.rename σ) := owned_rename t _ _
        rw [if_pos ho, if_pos ho', howned]
        cases t.owned req.clientId req.orderId with
        | none => rfl
        | some e =>
          simp only [Option.map_some, remove_rename]
          rfl
      · have ho' : ¬ (req.rename σ).orderId.toNat < meMaxOrderIds := ho
        rw [if_neg ho, if_neg ho']
        rfl
    · have hfits' : ¬ (t.rename σ).CopyFits := hfits
      rw [if_neg hfits, if_neg hfits']
      rfl
  · have hc' : ¬ (req.rename σ).clientId.toNat < meMaxNumClients := fun h => hc ((hσ _).1 h)
    rw [if_neg hc, if_neg hc']
    rfl

/-- **One request.** -/
theorem process_rename (hσ : Known σ) (t : OrderTable) (req : MEClientRequest) :
    (t.rename σ).process (req.rename σ) =
      (t.process req).map fun x => (x.1.rename σ, x.2.map (Sent.rename σ)) := by
  have htype : (req.rename σ).requestType = req.requestType := rfl
  rw [process, process, htype]
  cases req.requestType with
  | new => exact add_rename hσ t req
  | cancel => exact cancel_rename hσ t req
  | invalid => rfl
  | unnamed code hcode => rfl

end OrderTable

/-! ## The engine -/

namespace MatchingEngine

open MEOrderBook

/-- The feed is the same under all names. -/
theorem marketUpdates_rename (sent : List Sent) :
    marketUpdates (sent.map (Sent.rename σ)) = marketUpdates sent := by
  rw [marketUpdates, marketUpdates, List.filterMap_map]
  exact List.filterMap_congr fun s _ => by cases s <;> rfl

theorem clientResponses_rename (sent : List Sent) :
    clientResponses (sent.map (Sent.rename σ)) =
      (clientResponses sent).map (MEClientResponse.rename σ) := by
  rw [clientResponses, clientResponses, List.filterMap_map, List.map_filterMap]
  exact List.filterMap_congr fun s _ => by cases s <;> rfl

/-- The second book has the orders of the first under the new names. -/
def SameTable (σ : Equiv.Perm ClientId) (b b' : MEOrderBook) : Prop :=
  ∃ ring ring' t, Tabulates b ring t ∧ Tabulates b' ring' (t.rename σ)

/-- **The same but for the names**: what was sent, the updates among it, and the orders in the
books. -/
structure Alike (σ : Equiv.Perm ClientId) (x y : MatchingEngine × List Sent) : Prop where
  responses : clientResponses y.2 = (clientResponses x.2).map (MEClientResponse.rename σ)
  updates : marketUpdates y.2 = marketUpdates x.2
  books : ∀ t, SameTable σ (x.1.tickerOrderBook t) (y.1.tickerOrderBook t)

/-- One request to a book, and the same under the new names. -/
theorem SameTable.process (hσ : Known σ) {b b' : MEOrderBook} (h : SameTable σ b b')
    (req : MEClientRequest) :
    Agree (fun x y => SameTable σ x.1 y.1 ∧ y.2 = x.2.map (Sent.rename σ))
      (b.process req) (b'.process (req.rename σ)) := by
  obtain ⟨ring, ring', t, hb, hb'⟩ := h
  have hprocess := hb'.process (req.rename σ)
  rw [OrderTable.process_rename hσ] at hprocess
  refine (Agree.join (hb.process req) hprocess).mono fun x y hxy => ?_
  obtain ⟨z, ⟨hsent, ring, hx⟩, hsent', ring', hy⟩ := hxy
  exact ⟨⟨ring, ring', z.1, hx, hy⟩, by rw [hsent', hsent]⟩

/-- One request to the engine. -/
theorem Alike.next (hσ : Known σ) {x y : MatchingEngine × List Sent} (h : Alike σ x y)
    (req : MEClientRequest) :
    Agree (Alike σ) (processAfter x req) (processAfter y (req.rename σ)) := by
  rw [processAfter, processAfter]
  refine Agree.bind (R := fun u v =>
    (∀ t, SameTable σ (u.1.tickerOrderBook t) (v.1.tickerOrderBook t)) ∧
      v.2 = u.2.map (Sent.rename σ)) ?_ fun u v huv => ?_
  · rw [processClientRequest, processClientRequest]
    refine Agree.ite Iff.rfl (fun _ => ?_) fun _ => rfl
    refine ((h.books req.tickerId).process hσ req).bind fun u v huv => ⟨fun t => ?_, huv.2⟩
    change SameTable σ (Function.update x.1.tickerOrderBook req.tickerId u.1 t)
      (Function.update y.1.tickerOrderBook req.tickerId v.1 t)
    by_cases ht : t = req.tickerId
    · subst ht
      rw [Function.update_self, Function.update_self]
      exact huv.1
    · rw [Function.update_of_ne ht, Function.update_of_ne ht]
      exact h.books t
  · obtain ⟨hbooks, hsent⟩ := huv
    refine ⟨?_, ?_, hbooks⟩
    · dsimp only
      rw [hsent, clientResponses_append, clientResponses_append, clientResponses_rename,
        h.responses, List.map_append]
    · dsimp only
      rw [hsent, marketUpdates_append, marketUpdates_append, marketUpdates_rename, h.updates]

theorem alike_init : Alike σ (init, []) (init, []) :=
  ⟨rfl, rfl, fun t => ⟨_, _, {}, tabulates_init t _, tabulates_init t _⟩⟩

/-- **The clients are alike.**  Whatever they are called, the engine stops at the same request with
the same fault, or it sends the same updates, and the same responses to the new names. -/
theorem alike_of_rename (hσ : Known σ) (reqs : List MEClientRequest) :
    Agree (Alike σ) (init.processAll reqs)
      (init.processAll (reqs.map (MEClientRequest.rename σ))) := by
  rw [processAll, processAll, List.foldlM_map]
  exact Agree.foldlM (fun _ _ req h => h.next hσ req) alike_init reqs

theorem known_swap : Known (Equiv.swap 1 2) := by
  intro c
  rw [Equiv.swap_apply_def]
  split
  · next h => subst h; decide
  · split
    · next h => subst h; decide
    · rfl

/-- Two orders that cross at one price, of clients 1 and 2 and of clients 2 and 1. -/
theorem alike_of_rename_swapped : ∃ x y,
    init.processAll
      [{ requestType := .new, clientId := 1, tickerId := 0, orderId := 5, price := 10, qty := 3,
         side := .buy },
       { requestType := .new, clientId := 2, tickerId := 0, orderId := 6, price := 10, qty := 4,
         side := .sell }] = .ok x ∧
    init.processAll
      [{ requestType := .new, clientId := 2, tickerId := 0, orderId := 5, price := 10, qty := 3,
         side := .buy },
       { requestType := .new, clientId := 1, tickerId := 0, orderId := 6, price := 10, qty := 4,
         side := .sell }] = .ok y ∧
    (marketUpdates x.2).map (fun u => (u.orderId, u.qty)) = [(1, 3), (2, 4)] ∧
    Alike (Equiv.swap 1 2) x y := by
  have hend : (init.processAll
      [{ requestType := .new, clientId := 1, tickerId := 0, orderId := 5, price := 10, qty := 3,
         side := .buy },
       { requestType := .new, clientId := 2, tickerId := 0, orderId := 6, price := 10, qty := 4,
         side := .sell }]).map (fun x => (marketUpdates x.2).map fun u => (u.orderId, u.qty)) =
        .ok [(1, 3), (2, 4)] := by
    decide +kernel
  obtain ⟨x, hrun, hupdates⟩ := map_eq_ok.1 hend
  obtain ⟨y, hrun', halike⟩ := (alike_of_rename known_swap _).of_ok hrun
  exact ⟨x, y, hrun, hrun', hupdates, halike⟩

end MatchingEngine
end Exchange
end TradingEcosystem
